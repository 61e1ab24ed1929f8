import Mathlib
import Montage.Proofs.Cache.Freshness

/-!
# The accounts of a cache

A cache never holds more trees than its capacity, or more than one where the capacity is
nothing, and it counts every lookup once, as a hit or as a miss.  Both are kept by every
request, so that they hold after each step of every run from a new cache.

A run that fits is a run without clearing that looks up no more different buildable batches
than there is room for.  In such a run no tree is ever given up: the trees that are kept are
those of the buildable batches looked up so far, one for each (`Cache.Retains`), so that
every batch is built once and every further lookup of it is a hit.
-/

namespace Montage
namespace Cache

/-! ## One step -/

/-- Whether the answer is the reason why there is no tree. -/
def Answer.isError : Answer → Bool
  | .tree (.error _) => true
  | .frame (.error _) => true
  | _ => false

section Steps

variable {cache : Cache} {sources : List String}

/-- What a lookup can do: the tree is kept, or it cannot be built, or it is built and then
kept. -/
theorem fetch_cases (cache : Cache) (sources : List String) :
    (∃ tree, cache.entries.lookup (Digest.ofBatch sources) = some tree ∧
      cache.fetch sources = (.ok tree, { cache with hits := cache.hits + 1 })) ∨
    (∃ error, cache.entries.lookup (Digest.ofBatch sources) = none ∧
      Tree.ofDescriptions sources = .error error ∧
      cache.fetch sources = (.error error, { cache with misses := cache.misses + 1 })) ∨
    ∃ tree, cache.entries.lookup (Digest.ofBatch sources) = none ∧
      Tree.ofDescriptions sources = .ok tree ∧
      cache.fetch sources =
        (.ok tree,
          keep { cache with misses := cache.misses + 1 } (Digest.ofBatch sources) tree) := by
  cases kept : cache.entries.lookup (Digest.ofBatch sources) with
  | some tree => exact Or.inl ⟨tree, rfl, fetch_of_lookup_eq_some kept⟩
  | none =>
      cases built : Tree.ofDescriptions sources with
      | error error => exact Or.inr (Or.inl ⟨error, rfl, rfl, fetch_of_error kept built⟩)
      | ok tree => exact Or.inr (Or.inr ⟨tree, rfl, rfl, fetch_of_ok kept built⟩)

@[simp] theorem capacity_keep (digest : Digest) (tree : Tree) :
    (cache.keep digest tree).capacity = cache.capacity := by
  unfold keep
  split <;> rfl

@[simp] theorem hits_keep (digest : Digest) (tree : Tree) :
    (cache.keep digest tree).hits = cache.hits := by
  unfold keep
  split <;> rfl

@[simp] theorem misses_keep (digest : Digest) (tree : Tree) :
    (cache.keep digest tree).misses = cache.misses := by
  unfold keep
  split <;> rfl

/-- A tree for which there is room is put in front of the others. -/
theorem entries_keep_of_lt
    (room : cache.entries.length < max cache.capacity 1)
    (digest : Digest)
    (tree : Tree) :
    (cache.keep digest tree).entries = (digest, tree) :: cache.entries := by
  rw [entries_keep, if_neg (Nat.not_le.mpr room)]

/-- There is always room for one more tree. -/
theorem length_entries_keep_le (digest : Digest) (tree : Tree) :
    (cache.keep digest tree).entries.length ≤ max cache.capacity 1 := by
  rw [entries_keep]
  split
  · exact le_max_right cache.capacity 1
  · next room => exact Nat.not_le.mp room

@[simp] theorem capacity_fetch : (cache.fetch sources).2.capacity = cache.capacity := by
  obtain ⟨_, _, same⟩ | ⟨_, _, _, same⟩ | ⟨_, _, _, same⟩ := fetch_cases cache sources <;>
    simp [same]

/-- A request looks its batch up or clears the cache. -/
theorem snd_serve (cache : Cache) (request : Request) :
    (cache.serve request).2 =
      match request.batch? with
      | some sources => (cache.fetch sources).2
      | none => cache.clear := by
  cases request <;> rfl

theorem capacity_serve (request : Request) :
    (cache.serve request).2.capacity = cache.capacity := by
  rw [snd_serve]
  split
  · exact capacity_fetch
  · rfl

/-- A request that is answered with an error is counted as a miss and does nothing else. -/
theorem snd_serve_of_isError
    {request : Request}
    (failed : (cache.serve request).1.isError = true) :
    (cache.serve request).2 = { cache with misses := cache.misses + 1 } := by
  cases request with
  | clear => cases failed
  | tree sources | frame sources instant =>
      change (cache.fetch sources).2 = _
      simp only [serve, frameAt] at failed
      obtain ⟨_, _, same⟩ | ⟨_, _, _, same⟩ | ⟨_, _, _, same⟩ := fetch_cases cache sources
      · rw [same] at failed
        cases failed
      · rw [same]
      · rw [same] at failed
        cases failed

end Steps

/-! ## Runs -/

/-- The cache after a run of requests. -/
def after (cache : Cache) (requests : List Request) : Cache :=
  requests.foldl (fun reached request => (reached.serve request).2) cache

/-- The batches that a run looks up, one after the other. -/
def lookups (requests : List Request) : List (List String) :=
  requests.filterMap Request.batch?

section Runs

variable {cache : Cache} {request : Request} {requests : List Request}

@[simp] theorem after_nil : cache.after [] = cache := rfl

@[simp] theorem after_cons :
    cache.after (request :: requests) = (cache.serve request).2.after requests := rfl

theorem after_append (first second : List Request) :
    cache.after (first ++ second) = (cache.after first).after second :=
  List.foldl_append

/-- The last answer of a run is that of the cache after all requests before it. -/
theorem serveAll_concat :
    cache.serveAll (requests ++ [request]) =
      cache.serveAll requests ++ [(cache.after requests).serve request] := by
  induction requests generalizing cache with
  | nil => rfl
  | cons first rest inductionHypothesis =>
      rw [List.cons_append, serveAll, serveAll, inductionHypothesis, List.cons_append,
        after_cons]

@[simp] theorem lookups_nil : lookups [] = [] := rfl

theorem lookups_cons_of_batch
    {sources : List String}
    (isBatch : request.batch? = some sources) :
    lookups (request :: requests) = sources :: lookups requests :=
  List.filterMap_cons_some isBatch

theorem lookups_cons_of_none
    (noBatch : request.batch? = none) :
    lookups (request :: requests) = lookups requests :=
  List.filterMap_cons_none noBatch

/-- The cache holds no more than it may, and has counted so many lookups. -/
structure IsAccounted (count : Nat) (cache : Cache) : Prop where
  /-- There is room for what is kept. -/
  length_le : cache.entries.length ≤ max cache.capacity 1
  /-- Every lookup is a hit or a miss. -/
  hits_add_misses : cache.hits + cache.misses = count

variable {count : Nat}

theorem IsAccounted.fetch
    (accounted : IsAccounted count cache)
    (sources : List String) :
    IsAccounted (count + 1) (cache.fetch sources).2 := by
  obtain ⟨bounded, counted⟩ := accounted
  obtain ⟨_, _, same⟩ | ⟨_, _, _, same⟩ | ⟨_, _, _, same⟩ := fetch_cases cache sources
  · rw [same]
    exact ⟨bounded, by simp only; omega⟩
  · rw [same]
    exact ⟨bounded, by simp only; omega⟩
  · rw [same]
    refine ⟨?_, ?_⟩
    · rw [capacity_keep]
      exact length_entries_keep_le _ _
    · simp only [hits_keep, misses_keep]
      omega

/-- After every run the cache has counted the lookups of the run. -/
theorem IsAccounted.after
    (accounted : IsAccounted count cache)
    (requests : List Request) :
    IsAccounted (count + (lookups requests).length) (cache.after requests) := by
  induction requests generalizing cache count with
  | nil => exact accounted
  | cons request rest inductionHypothesis =>
      have served := snd_serve cache request
      cases isBatch : request.batch? with
      | some sources =>
          rw [isBatch] at served
          rw [after_cons, served, lookups_cons_of_batch isBatch, List.length_cons,
            add_comm (lookups rest).length, ← add_assoc]
          exact inductionHypothesis (accounted.fetch sources)
      | none =>
          rw [isBatch] at served
          rw [after_cons, served, lookups_cons_of_none isBatch]
          exact inductionHypothesis ⟨Nat.zero_le _, accounted.hits_add_misses⟩

@[simp] theorem capacity_after : (cache.after requests).capacity = cache.capacity := by
  induction requests generalizing cache with
  | nil => rfl
  | cons request rest inductionHypothesis =>
      rw [after_cons, inductionHypothesis, capacity_serve]

end Runs

/-! ## Runs that fit -/

/-- Whether a tree can be built of a batch. -/
def isBuildable (sources : List String) : Bool :=
  (Tree.ofDescriptions sources).isOk

/-- The different batches of a list that can be built. -/
def buildable (batches : List (List String)) : Finset (List String) :=
  (batches.filter isBuildable).toFinset

/-- The batches of a list that cannot be built, each as often as it occurs. -/
def failing (batches : List (List String)) : List (List String) :=
  batches.filter fun sources => !isBuildable sources

/-- The cache keeps the trees of all buildable batches looked up so far, one for each, and
all lookups but the failing ones and the first of each of these batches were hits. -/
structure Retains (batches looked : List (List String)) (cache : Cache) : Prop where
  /-- There are as many trees as different batches. -/
  length_entries : cache.entries.length = (buildable looked).card
  /-- A batch of the run is found when it has been looked up and can be built. -/
  isSome_lookup_iff : ∀ sources ∈ batches,
    (cache.entries.lookup (Digest.ofBatch sources)).isSome = true ↔ sources ∈ buildable looked
  /-- Every lookup failed, was the first of its batch or was a hit. -/
  hits_add : cache.hits + (failing looked).length + (buildable looked).card = looked.length

section Retention

variable {batches looked : List (List String)} {cache : Cache} {sources : List String}

theorem mem_buildable_iff :
    sources ∈ buildable looked ↔ sources ∈ looked ∧ isBuildable sources = true := by
  rw [buildable, List.mem_toFinset, List.mem_filter]

theorem buildable_mono
    {more : List (List String)}
    (subset : looked ⊆ more) :
    buildable looked ⊆ buildable more := by
  intro sources member
  obtain ⟨isLooked, isBuilt⟩ := mem_buildable_iff.mp member
  exact mem_buildable_iff.mpr ⟨subset isLooked, isBuilt⟩

/-- A batch that has been looked up, or cannot be built, adds nothing new. -/
theorem buildable_concat_of_mem_or
    (known : sources ∈ buildable looked ∨ isBuildable sources = false) :
    buildable (looked ++ [sources]) = buildable looked := by
  ext other
  simp only [mem_buildable_iff, List.mem_append, List.mem_singleton]
  constructor
  · rintro ⟨isLooked | rfl, isBuilt⟩
    · exact ⟨isLooked, isBuilt⟩
    · rcases known with found | failed
      · exact mem_buildable_iff.mp found
      · rw [failed] at isBuilt
        cases isBuilt
  · rintro ⟨isLooked, isBuilt⟩
    exact ⟨Or.inl isLooked, isBuilt⟩

theorem buildable_concat_of_isBuildable (isBuilt : isBuildable sources = true) :
    buildable (looked ++ [sources]) = insert sources (buildable looked) := by
  ext other
  simp only [mem_buildable_iff, List.mem_append, List.mem_singleton, Finset.mem_insert]
  constructor
  · rintro ⟨isLooked | rfl, otherBuilt⟩
    · exact Or.inr ⟨isLooked, otherBuilt⟩
    · exact Or.inl rfl
  · rintro (rfl | ⟨isLooked, otherBuilt⟩)
    · exact ⟨Or.inr rfl, isBuilt⟩
    · exact ⟨Or.inl isLooked, otherBuilt⟩

theorem length_failing_concat :
    (failing (looked ++ [sources])).length =
      (failing looked).length + if isBuildable sources then 0 else 1 := by
  rw [failing, List.filter_append, List.length_append, ← failing]
  cases isBuilt : isBuildable sources <;> simp [isBuilt]

theorem retains_new (capacity : Nat) : Retains batches [] { capacity := capacity } where
  length_entries := rfl
  isSome_lookup_iff sources _ := by simp [buildable]
  hits_add := rfl

/-- A batch that is found is counted as a hit. -/
theorem Retains.hit
    (retains : Retains batches looked cache)
    (known : sources ∈ buildable looked) :
    Retains batches (looked ++ [sources]) { cache with hits := cache.hits + 1 } := by
  have unchanged := buildable_concat_of_mem_or (Or.inl known)
  refine ⟨?_, ?_, ?_⟩
  · rw [unchanged]
    exact retains.length_entries
  · rw [unchanged]
    exact retains.isSome_lookup_iff
  · have counted := retains.hits_add
    rw [unchanged, length_failing_concat, if_pos (mem_buildable_iff.mp known).2,
      List.length_append, List.length_singleton]
    simp only
    omega

/-- A batch that cannot be built is counted as a miss. -/
theorem Retains.miss
    (retains : Retains batches looked cache)
    (notBuilt : isBuildable sources = false) :
    Retains batches (looked ++ [sources]) { cache with misses := cache.misses + 1 } := by
  have unchanged : buildable (looked ++ [sources]) = buildable looked :=
    buildable_concat_of_mem_or (Or.inr notBuilt)
  refine ⟨?_, ?_, ?_⟩
  · rw [unchanged]
    exact retains.length_entries
  · rw [unchanged]
    exact retains.isSome_lookup_iff
  · have counted := retains.hits_add
    rw [unchanged, length_failing_concat, if_neg (by simp [notBuilt]), List.length_append,
      List.length_singleton]
    simp only
    omega

/-- The tree of a batch that is not found and can be built is put in front of the others. -/
theorem Retains.build
    (retains : Retains batches looked cache)
    (separates : Digest.Separates batches)
    (member : sources ∈ batches)
    (new : sources ∉ buildable looked)
    (isBuilt : isBuildable sources = true)
    {grown : Cache}
    {tree : Tree}
    (entries : grown.entries = (Digest.ofBatch sources, tree) :: cache.entries)
    (hits : grown.hits = cache.hits) :
    Retains batches (looked ++ [sources]) grown := by
  have card := Finset.card_insert_of_notMem new
  have inserted : buildable (looked ++ [sources]) = insert sources (buildable looked) :=
    buildable_concat_of_isBuildable isBuilt
  refine ⟨?_, ?_, ?_⟩
  · rw [entries, List.length_cons, inserted, card, retains.length_entries]
  · intro other otherMember
    rw [entries, inserted, Finset.mem_insert, ← retains.isSome_lookup_iff other otherMember,
      List.lookup_cons]
    by_cases equal : other = sources
    · simp [equal]
    · have unequal : (Digest.ofBatch other == Digest.ofBatch sources) = false := by
        rw [beq_eq_false_iff_ne]
        exact fun digests => equal (separates other otherMember sources member digests)
      simp [unequal, equal]
  · have counted := retains.hits_add
    rw [inserted, card, length_failing_concat, if_pos isBuilt, List.length_append,
      List.length_singleton, hits]
    omega

/-- A lookup for which there is room gives no tree up, and the cache retains one tree more
where there was none. -/
theorem Retains.fetch
    (retains : Retains batches looked cache)
    (separates : Digest.Separates batches)
    (member : sources ∈ batches)
    (fits : (buildable (looked ++ [sources])).card ≤ max cache.capacity 1) :
    Retains batches (looked ++ [sources]) (cache.fetch sources).2 ∧
      cache.entries <:+ (cache.fetch sources).2.entries := by
  have found := retains.isSome_lookup_iff sources member
  obtain ⟨tree, kept, same⟩ | ⟨error, absent, failed, same⟩ | ⟨tree, absent, built, same⟩ :=
    fetch_cases cache sources
  · rw [same]
    exact ⟨retains.hit (found.mp (by simp [kept])), List.suffix_rfl⟩
  · rw [same]
    exact ⟨retains.miss (by rw [isBuildable, failed]; rfl), List.suffix_rfl⟩
  · have isBuilt : isBuildable sources = true := by
      rw [isBuildable, built]
      rfl
    have new : sources ∉ buildable looked := by
      rw [← found, absent]
      simp
    have room : cache.entries.length < max cache.capacity 1 := by
      rw [buildable_concat_of_isBuildable isBuilt, Finset.card_insert_of_notMem new,
        ← retains.length_entries] at fits
      exact fits
    have entries : (cache.fetch sources).2.entries =
        (Digest.ofBatch sources, tree) :: cache.entries := by
      rw [same]
      apply entries_keep_of_lt
      exact room
    have hits : (cache.fetch sources).2.hits = cache.hits := by
      rw [same]
      exact hits_keep _ _
    refine ⟨retains.build separates member new isBuilt entries hits, ?_⟩
    rw [entries]
    exact List.suffix_cons _ _

/-- A run that fits gives no tree up, and the cache retains the trees of its batches. -/
theorem Retains.after
    (retains : Retains batches looked cache)
    (separates : Digest.Separates batches)
    {requests : List Request}
    (unclearing : Request.clear ∉ requests)
    (subset : lookups requests ⊆ batches)
    (fits : (buildable (looked ++ lookups requests)).card ≤ max cache.capacity 1) :
    Retains batches (looked ++ lookups requests) (cache.after requests) ∧
      cache.entries <:+ (cache.after requests).entries := by
  induction requests generalizing cache looked with
  | nil =>
      rw [lookups_nil, List.append_nil]
      exact ⟨retains, List.suffix_rfl⟩
  | cons request rest inductionHypothesis =>
      obtain ⟨notClear, others⟩ := not_or.mp (mt List.mem_cons.mpr unclearing)
      obtain ⟨sources, isBatch⟩ : ∃ sources, request.batch? = some sources := by
        cases request with
        | tree sources | frame sources instant => exact ⟨sources, rfl⟩
        | clear => exact absurd rfl notClear
      have served : (cache.serve request).2 = (cache.fetch sources).2 := by
        rw [snd_serve, isBatch]
      have split : looked ++ sources :: lookups rest = looked ++ [sources] ++ lookups rest := by
        simp
      rw [lookups_cons_of_batch isBatch] at subset fits ⊢
      rw [split] at fits ⊢
      have fitsNow : (buildable (looked ++ [sources])).card ≤ max cache.capacity 1 :=
        (Finset.card_le_card (buildable_mono (List.subset_append_left _ _))).trans fits
      obtain ⟨retainsNow, suffixNow⟩ :=
        retains.fetch separates (subset List.mem_cons_self) fitsNow
      obtain ⟨retainsLater, suffixLater⟩ := inductionHypothesis retainsNow others
        (fun other otherMember => subset (List.mem_cons_of_mem _ otherMember))
        (by rwa [capacity_fetch])
      rw [after_cons, served]
      exact ⟨retainsLater, suffixNow.trans suffixLater⟩

end Retention

/-- After every run of requests from a new cache of any capacity there is room for all trees
that are kept, and every lookup has been counted once.  Whatever is asked next, an answer with
an error is counted as a miss and does nothing else, and clearing only takes the trees away.  A
run without clearing, of batches that do not share digests, in which no more different batches
can be built than there is room for, never gives a tree up: its hits are all lookups but the
failing ones and the first of each batch that can be built. -/
theorem accounts_of_runs (capacity : Nat) :
    (∀ requests : List Request,
      let reached := after { capacity := capacity } requests
      (∀ request, serveAll { capacity := capacity } (requests ++ [request]) =
        serveAll { capacity := capacity } requests ++ [reached.serve request]) ∧
      reached.entries.length ≤ max capacity 1 ∧
      reached.hits + reached.misses = (lookups requests).length ∧
      (∀ request, (reached.serve request).1.isError = true →
        (reached.serve request).2 = { reached with misses := reached.misses + 1 }) ∧
      (reached.serve .clear).2 = { reached with entries := [] }) ∧
    ∀ requests : List Request, Request.clear ∉ requests →
      Digest.Separates (lookups requests) →
      (buildable (lookups requests)).card ≤ max capacity 1 →
        (∀ earlier, earlier <+: requests →
          (after { capacity := capacity } earlier).entries <:+
            (after { capacity := capacity } requests).entries) ∧
        (after { capacity := capacity } requests).hits + (failing (lookups requests)).length +
          (buildable (lookups requests)).card = (lookups requests).length := by
  refine ⟨fun requests => ?_, fun requests unclearing separates fits => ⟨?_, ?_⟩⟩
  · have start : IsAccounted 0 { capacity := capacity } := ⟨Nat.zero_le _, rfl⟩
    obtain ⟨bounded, counted⟩ := start.after requests
    rw [capacity_after] at bounded
    rw [Nat.zero_add] at counted
    exact ⟨fun request => serveAll_concat, bounded, counted,
      fun request failed => snd_serve_of_isError failed, rfl⟩
  · -- The run up to the earlier point fits as well, and so does the rest from there.
    rintro earlier ⟨later, rfl⟩
    rw [List.mem_append, not_or] at unclearing
    have lookupsSplit : lookups (earlier ++ later) = lookups earlier ++ lookups later :=
      List.filterMap_append
    rw [lookupsSplit] at separates fits
    have fitsEarlier : (buildable ([] ++ lookups earlier)).card ≤ max capacity 1 :=
      (Finset.card_le_card (buildable_mono (List.subset_append_left _ _))).trans fits
    obtain ⟨retains, -⟩ := (retains_new capacity).after separates unclearing.1
      (List.subset_append_left _ _) fitsEarlier
    rw [after_append]
    refine (retains.after separates unclearing.2 (List.subset_append_right _ _) ?_).2
    rwa [List.nil_append, capacity_after]
  · obtain ⟨retains, -⟩ := (retains_new capacity).after separates unclearing
      (List.Subset.refl _) (by rwa [List.nil_append])
    rw [List.nil_append] at retains
    exact retains.hits_add

/-- A run in which a cache without capacity is asked for one batch three times, and once
for a batch that cannot be built. -/
def steadyRun : List Request :=
  [ .tree ["div;id:a"], .frame ["div;id:a"] 0.5, .tree ["div"], .tree ["div;id:a"] ]

/-- Even without capacity the one tree is kept and handed out twice; the failing lookup
leaves no trace but a miss. -/
theorem accounts_of_steadyRun :
    (Request.clear ∉ steadyRun ∧ Digest.Separates (lookups steadyRun) ∧
      (buildable (lookups steadyRun)).card ≤ max 0 1 ∧
      ((after { capacity := 0 } (steadyRun.take 2)).serve (.tree ["div"])).1.isError =
        true) ∧
    ((after { capacity := 0 } (steadyRun.take 2)).serve (.tree ["div"])).2 =
      { after { capacity := 0 } (steadyRun.take 2) with
        misses := (after { capacity := 0 } (steadyRun.take 2)).misses + 1 } ∧
    (after { capacity := 0 } (steadyRun.take 1)).entries <:+
      (after { capacity := 0 } steadyRun).entries ∧
    (after { capacity := 0 } steadyRun).hits + 1 + 1 = 4 := by
  have unclearing : Request.clear ∉ steadyRun := by
    simp [steadyRun]
  have separates : Digest.Separates (lookups steadyRun) := by
    decide +kernel
  have one : buildable (lookups steadyRun) = {["div;id:a"]} := by
    decide +kernel
  have fits : (buildable (lookups steadyRun)).card ≤ max 0 1 := by
    rw [one]
    decide
  have failed : ((after { capacity := 0 } (steadyRun.take 2)).serve
      (.tree ["div"])).1.isError = true := by
    decide +kernel
  have failures : failing (lookups steadyRun) = [["div"]] := by
    decide +kernel
  obtain ⟨suffixes, account⟩ := (accounts_of_runs 0).2 steadyRun unclearing separates fits
  rw [one, failures] at account
  exact ⟨⟨unclearing, separates, fits, failed⟩,
    ((accounts_of_runs 0).1 (steadyRun.take 2)).2.2.2.1 _ failed,
    suffixes _ (List.take_prefix 1 steadyRun), account⟩

end Cache
end Montage
