import Montage.Digest
import Montage.Frame
import Montage.Tree.Building

/-!
# A cache of trees

The descriptions of a clip stay the same while it is shown, so its tree is built once
and kept under the digest of the descriptions.  A full cache is emptied before the
next tree is kept, and batches that cannot be built leave no trace but a miss.
-/

namespace Montage

/-- Trees kept under the digests of their batches, with the number of lookups that
were and were not answered from them. -/
structure Cache where
  /-- How many trees are kept at most; room for one is always made. -/
  capacity : Nat := 256
  /-- The trees, the latest first. -/
  entries : List (Digest × Tree) := []
  /-- The lookups that were answered from the entries. -/
  hits : Nat := 0
  /-- The other lookups. -/
  misses : Nat := 0

namespace Cache

/-- Forgets every tree; the counts stay. -/
def clear (cache : Cache) : Cache :=
  { cache with entries := [] }

/-- Keeps a tree that is not among the entries. -/
def keep
    (cache : Cache)
    (digest : Digest)
    (tree : Tree) : Cache :=
  let roomy := if max cache.capacity 1 ≤ cache.entries.length then cache.clear else cache
  { roomy with entries := (digest, tree) :: roomy.entries }

/-- The tree of a batch, from the entries if it is there. -/
def fetch
    (cache : Cache)
    (sources : List String) : Except Error Tree × Cache :=
  let digest := Digest.ofBatch sources
  match cache.entries.lookup digest with
  | some tree => (.ok tree, { cache with hits := cache.hits + 1 })
  | none =>
      let missed := { cache with misses := cache.misses + 1 }
      match Tree.ofDescriptions sources with
      | .error error => (.error error, missed)
      | .ok tree => (.ok tree, missed.keep digest tree)

/-- The newest tree comes first, and behind it the others unless the cache was full. -/
theorem entries_keep
    (cache : Cache)
    (digest : Digest)
    (tree : Tree) :
    (cache.keep digest tree).entries =
      (digest, tree) ::
        if max cache.capacity 1 ≤ cache.entries.length then [] else cache.entries := by
  unfold keep
  split <;> rfl

section Fetch

variable {cache : Cache} {sources : List String}

/-- A tree that is kept is handed out. -/
theorem fetch_of_lookup_eq_some
    {tree : Tree}
    (kept : cache.entries.lookup (Digest.ofBatch sources) = some tree) :
    cache.fetch sources = (.ok tree, { cache with hits := cache.hits + 1 }) := by
  simp only [fetch, kept]

/-- A batch that is not kept and cannot be built leaves no trace but a miss. -/
theorem fetch_of_error
    (absent : cache.entries.lookup (Digest.ofBatch sources) = none)
    {error : Error}
    (failed : Tree.ofDescriptions sources = .error error) :
    cache.fetch sources = (.error error, { cache with misses := cache.misses + 1 }) := by
  simp only [fetch, absent, failed]

/-- A batch that is not kept is built and then kept. -/
theorem fetch_of_ok
    (absent : cache.entries.lookup (Digest.ofBatch sources) = none)
    {tree : Tree}
    (built : Tree.ofDescriptions sources = .ok tree) :
    cache.fetch sources =
      (.ok tree,
        keep { cache with misses := cache.misses + 1 } (Digest.ofBatch sources) tree) := by
  simp only [fetch, absent, built]

end Fetch

/-- The frame of a batch at an instant, in seconds. -/
def frameAt
    (cache : Cache)
    (sources : List String)
    (instant : Float) : Except Error Frame × Cache :=
  let (tree, after) := cache.fetch sources
  (tree.map fun found => found.frameAt instant, after)

/-! ## Requests -/

/-- What can be asked of a cache. -/
inductive Request where
  /-- The tree of a batch. -/
  | tree (sources : List String)
  /-- The frame of a batch at an instant. -/
  | frame (sources : List String) (instant : Float)
  /-- Forgetting every tree. -/
  | clear

/-- What a cache answers. -/
inductive Answer where
  /-- A tree, or why there is none. -/
  | tree (result : Except Error Tree)
  /-- A frame, or why there is none. -/
  | frame (result : Except Error Frame)
  /-- Nothing. -/
  | cleared

/-- Answers one request. -/
def serve (cache : Cache) : Request → Answer × Cache
  | .tree sources =>
      let (result, after) := cache.fetch sources
      (.tree result, after)
  | .frame sources instant =>
      let (result, after) := cache.frameAt sources instant
      (.frame result, after)
  | .clear => (.cleared, cache.clear)

/-- Answers requests one after the other, each with the cache after it. -/
def serveAll (cache : Cache) : List Request → List (Answer × Cache)
  | [] => []
  | request :: rest =>
      let served := cache.serve request
      served :: serveAll served.2 rest

end Cache
end Montage
