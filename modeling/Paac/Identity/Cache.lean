import Paac.Library.IndexMap

set_option autoImplicit false

/-!
# Identities and their cache

An identity is kept for a short time under a key. Times are readings of the monotonic clock.

Every operation that reads the clock takes its reading as an argument, and `clear_expired`, which
reads it anew for every entry, takes one for each. An entry that is older than the time to live is
not returned, and is removed only by a sweep.
-/

namespace Paac

structure CanonicalIdentity where
  id : String
  displayName : String
  email : Option String
  source : String
  roles : List String
  groups : List String
  attrs : IndexMap String
  deriving DecidableEq

structure CachedIdentity where
  identity : CanonicalIdentity
  provenance : String
  insertedAt : Nat

/-- The cache: how long an entry lives, and the entries. -/
structure IdentityCache where
  ttl : Nat
  inner : IndexMap CachedIdentity

namespace IdentityCache

/-- `IdentityCache::new`. -/
def new (ttl : Nat) : IdentityCache := ⟨ttl, .empty⟩

/-- `get_with_provenance`: an entry older than the time to live is not returned. -/
def getWithProvenance (cache : IdentityCache) (key : String) (now : Nat) : Option CachedIdentity :=
  (cache.inner.get key).bind fun entry =>
    if now - entry.insertedAt > cache.ttl then none else some entry

/-- `get`. -/
def get (cache : IdentityCache) (key : String) (now : Nat) : Option CanonicalIdentity :=
  (cache.getWithProvenance key now).map CachedIdentity.identity

/-- `put`. -/
def put (cache : IdentityCache) (key : String) (identity : CanonicalIdentity) (provenance : String)
    (now : Nat) : IdentityCache :=
  { cache with inner := cache.inner.insert key ⟨identity, provenance, now⟩ }

/-- `invalidate`. -/
def invalidate (cache : IdentityCache) (key : String) : IdentityCache :=
  { cache with inner := cache.inner.remove key }

/-- `clear_expired`: the clock is read anew for every entry. -/
def clearExpired (cache : IdentityCache) (now : String → Nat) : IdentityCache :=
  { cache with inner := cache.inner.retain fun key v => now key - v.insertedAt ≤ cache.ttl }

end IdentityCache

end Paac
