import Montage.Playback

/-!
# Cached answers are fresh answers

Whatever is asked of a cache, and in whatever order, it answers what would be answered
without one: the tree of a batch is the tree that reading and nesting its descriptions
gives now, or the same error, and a frame is that tree sampled at the instant.  This
rests on one invariant, `Cache.Faithful`: every tree that is kept is the tree of some
batch with its digest.  Emptying the cache, which may happen at any time, keeps the
invariant, since it only takes entries away.

Two batches that are looked up with the same digest would be taken for each other;
`Digest.Separates` excludes that.
-/

namespace Montage

/-- No two of the batches share a digest. -/
def Digest.Separates (batches : List (List String)) : Prop :=
  ∀ left ∈ batches, ∀ right ∈ batches,
    Digest.ofBatch left = Digest.ofBatch right → left = right

instance (batches : List (List String)) : Decidable (Digest.Separates batches) :=
  inferInstanceAs (Decidable (∀ left ∈ batches, ∀ right ∈ batches, _ → _))

/-- The frame of a batch at an instant, built without a cache. -/
def Frame.ofDescriptions
    (sources : List String)
    (instant : Float) : Except Error Frame :=
  (Tree.ofDescriptions sources).map fun tree => Id.run (tree.sample (Sampler.standingAt instant))

namespace Cache

/-- The batch that a request looks up. -/
def Request.batch? : Request → Option (List String)
  | .tree sources => some sources
  | .frame sources _ => some sources
  | .clear => none

/-- What a request is answered without a cache. -/
def Request.freshAnswer : Request → Answer
  | .tree sources => .tree (Tree.ofDescriptions sources)
  | .frame sources instant => .frame (Frame.ofDescriptions sources instant)
  | .clear => .cleared

/-- Every tree that is kept is the tree of one of the batches, under its digest. -/
def Faithful
    (batches : List (List String))
    (cache : Cache) : Prop :=
  ∀ entry ∈ cache.entries, ∃ sources ∈ batches,
    Digest.ofBatch sources = entry.1 ∧ Tree.ofDescriptions sources = .ok entry.2

section Lookups

variable {batches : List (List String)} {cache : Cache}

theorem faithful_new (capacity : Nat) :
    Faithful batches { capacity := capacity } := by
  intro entry member
  exact absurd member List.not_mem_nil

theorem faithful_clear : Faithful batches cache.clear := by
  intro entry member
  exact absurd member List.not_mem_nil

theorem Faithful.fetch
    (faithful : Faithful batches cache)
    {sources : List String}
    (member : sources ∈ batches) :
    Faithful batches (cache.fetch sources).2 := by
  cases kept : cache.entries.lookup (Digest.ofBatch sources) with
  | some tree =>
      rw [fetch_of_lookup_eq_some kept]
      exact faithful
  | none =>
      cases built : Tree.ofDescriptions sources with
      | error error =>
          rw [fetch_of_error kept built]
          exact faithful
      | ok tree =>
          rw [fetch_of_ok kept built]
          intro entry entryMember
          rw [entries_keep] at entryMember
          rcases List.mem_cons.mp entryMember with rfl | older
          · exact ⟨sources, member, rfl, built⟩
          · split at older
            · exact absurd older List.not_mem_nil
            · exact faithful entry older

/-- A faithful cache hands out the tree that building the batch would give. -/
theorem Faithful.fst_fetch
    (separates : Digest.Separates batches)
    (faithful : Faithful batches cache)
    {sources : List String}
    (member : sources ∈ batches) :
    (cache.fetch sources).1 = Tree.ofDescriptions sources := by
  cases kept : cache.entries.lookup (Digest.ofBatch sources) with
  | some tree =>
      obtain ⟨front, back, split, -⟩ := List.lookup_eq_some_iff.mp kept
      have entryMember : (Digest.ofBatch sources, tree) ∈ cache.entries := by
        rw [split]
        exact List.mem_append_right _ List.mem_cons_self
      obtain ⟨stored, storedMember, sameDigest, built⟩ := faithful _ entryMember
      obtain rfl := separates stored storedMember sources member sameDigest
      rw [fetch_of_lookup_eq_some kept, built]
  | none =>
      cases built : Tree.ofDescriptions sources with
      | error error => rw [fetch_of_error kept built]
      | ok tree => rw [fetch_of_ok kept built]

/-- A faithful cache hands out the frame that building the batch would give. -/
theorem Faithful.fst_frameAt
    (separates : Digest.Separates batches)
    (faithful : Faithful batches cache)
    {sources : List String}
    (member : sources ∈ batches)
    (instant : Float) :
    (cache.frameAt sources instant).1 = Frame.ofDescriptions sources instant := by
  rw [Frame.ofDescriptions, ← faithful.fst_fetch separates member]
  rfl

end Lookups

/-! ## Runs -/

section Runs

variable {batches : List (List String)} {cache : Cache}

theorem Faithful.serve
    (faithful : Faithful batches cache)
    {request : Request}
    (lookedUp : ∀ sources, request.batch? = some sources → sources ∈ batches) :
    Faithful batches (cache.serve request).2 := by
  cases request with
  | tree sources => exact faithful.fetch (lookedUp sources rfl)
  | frame sources instant => exact faithful.fetch (lookedUp sources rfl)
  | clear => exact faithful_clear

/-- A faithful cache answers a request as without a cache. -/
theorem Faithful.fst_serve
    (separates : Digest.Separates batches)
    (faithful : Faithful batches cache)
    {request : Request}
    (lookedUp : ∀ sources, request.batch? = some sources → sources ∈ batches) :
    (cache.serve request).1 = request.freshAnswer := by
  cases request with
  | tree sources =>
      exact congrArg Answer.tree (faithful.fst_fetch separates (lookedUp sources rfl))
  | frame sources instant =>
      exact congrArg Answer.frame
        (faithful.fst_frameAt separates (lookedUp sources rfl) instant)
  | clear => rfl

/-- A faithful cache answers every request of a run as without a cache. -/
theorem Faithful.map_fst_serveAll
    (separates : Digest.Separates batches)
    (faithful : Faithful batches cache)
    {requests : List Request}
    (lookedUp : ∀ sources ∈ requests.filterMap Request.batch?, sources ∈ batches) :
    (cache.serveAll requests).map Prod.fst = requests.map Request.freshAnswer := by
  induction requests generalizing cache with
  | nil => rfl
  | cons request rest inductionHypothesis =>
      have first : ∀ sources, request.batch? = some sources → sources ∈ batches :=
        fun sources isBatch => lookedUp sources
          (List.mem_filterMap.mpr ⟨request, List.mem_cons_self, isBatch⟩)
      have others : ∀ sources ∈ rest.filterMap Request.batch?, sources ∈ batches := by
        intro sources member
        obtain ⟨later, laterMember, isBatch⟩ := List.mem_filterMap.mp member
        exact lookedUp sources
          (List.mem_filterMap.mpr ⟨later, List.mem_cons_of_mem _ laterMember, isBatch⟩)
      rw [serveAll, List.map_cons, List.map_cons, faithful.fst_serve separates first,
        inductionHypothesis (faithful.serve first) others]

end Runs

end Cache

/-! ## Playback -/

namespace Playback

open Cache

/-- What a clip looks like in a frame, built without a cache. -/
def freshlyShown
    (frame : Nat)
    (clip : Clip Float) : Shown where
  frame := frame
  clip := clip.id
  root := Frame.ofDescriptions clip.descriptions (FrameRate.playback.instantOf frame)

/-- The clips of a timeline that are shown in a frame, in stacking order. -/
def clipsIn
    (timeline : Timeline Float)
    (frame : Nat) : List (Clip Float) :=
  timeline.clips.filter fun clip => clip.isShownAt (FrameRate.playback.instantOf frame)

section Shows

variable {batches : List (List String)} {cache : Cache}

/-- Clips are shown as without a cache, and the cache stays faithful. -/
theorem showClips_eq_map
    (separates : Digest.Separates batches)
    (faithful : Faithful batches cache)
    {frame : Nat}
    {clips : List (Clip Float)}
    (lookedUp : ∀ clip ∈ clips, clip.descriptions ∈ batches) :
    (showClips frame (FrameRate.playback.instantOf frame) cache clips).1 =
        clips.map (freshlyShown frame) ∧
      Faithful batches
        (showClips frame (FrameRate.playback.instantOf frame) cache clips).2 := by
  induction clips generalizing cache with
  | nil => exact ⟨rfl, faithful⟩
  | cons clip rest inductionHypothesis =>
      obtain ⟨first, others⟩ := List.forall_mem_cons.mp lookedUp
      obtain ⟨restShown, restFaithful⟩ :=
        inductionHypothesis (faithful.fetch first) others
      have root := faithful.fst_frameAt separates first (FrameRate.playback.instantOf frame)
      refine ⟨?_, restFaithful⟩
      rw [List.map_cons, ← restShown, freshlyShown, ← root]
      rfl

/-- Frames are shown as without a cache. -/
theorem showFrames_eq_flatMap
    (separates : Digest.Separates batches)
    (faithful : Faithful batches cache)
    {timeline : Timeline Float}
    {frames : List Nat}
    (lookedUp : ∀ frame ∈ frames, ∀ clip ∈ clipsIn timeline frame,
      clip.descriptions ∈ batches) :
    (showFrames timeline cache frames).1 =
      frames.flatMap fun frame => (clipsIn timeline frame).map (freshlyShown frame) := by
  induction frames generalizing cache with
  | nil => rfl
  | cons frame rest inductionHypothesis =>
      obtain ⟨first, others⟩ := List.forall_mem_cons.mp lookedUp
      obtain ⟨shown, stillFaithful⟩ := showClips_eq_map separates faithful first
      rw [List.flatMap_cons, ← shown, ← inductionHypothesis stillFaithful others]
      rfl

end Shows

/-- A new cache of any capacity answers every run of requests, and shows the frames of
every timeline in any order and any number of times, as if there were no cache, provided
that the batches looked up do not share digests. -/
theorem answers_eq_fresh_answers (capacity : Nat) :
    (∀ requests : List Request,
      Digest.Separates (requests.filterMap Request.batch?) →
        (Cache.serveAll { capacity := capacity } requests).map Prod.fst =
          requests.map Request.freshAnswer) ∧
    ∀ (timeline : Timeline Float) (frames : List Nat),
      Digest.Separates (frames.flatMap fun frame =>
          (clipsIn timeline frame).map Clip.descriptions) →
        (showFrames timeline { capacity := capacity } frames).1 =
          frames.flatMap fun frame =>
            (clipsIn timeline frame).map (freshlyShown frame) := by
  refine ⟨fun requests separates => ?_, fun timeline frames separates => ?_⟩
  · exact (faithful_new capacity).map_fst_serveAll separates fun sources member => member
  · refine showFrames_eq_flatMap separates (faithful_new capacity) ?_
    intro frame frameMember clip clipMember
    exact List.mem_flatMap.mpr ⟨frame, frameMember, List.mem_map_of_mem clipMember⟩

/-- A run in which a cache with room for one tree is asked for two, cannot build a
third, and is cleared. -/
def crowdedRun : List Request :=
  [ .tree ["div;id:a"], .frame ["p;id:b;x:@animate[0,1]:[0,4]"] 0.5, .tree ["div"],
    .tree ["div;id:a"], .clear, .tree ["div;id:a"] ]

/-- A timeline of two clips that overlap for half a second. -/
def overlappingClips : Timeline Float :=
  { tracks :=
      [ { clips :=
            [ { id := "first", start := 0.0, finish := 1.0, descriptions := ["div;id:a"] },
              { id := "second", start := 0.5, finish := 2.0,
                descriptions := ["p;id:b;x:@animate[0,1]:[0,4]"] } ] } ] }

/-- A crowded cache answers as no cache would, and a timeline is shown the same when its
frames are asked for out of order and twice. -/
theorem answers_eq_fresh_answers_crowded :
    Digest.Separates (crowdedRun.filterMap Request.batch?) ∧
      Digest.Separates ([45, 0, 20, 45].flatMap fun frame =>
        (clipsIn overlappingClips frame).map Clip.descriptions) ∧
      (Cache.serveAll { capacity := 1 } crowdedRun).map Prod.fst =
        crowdedRun.map Request.freshAnswer ∧
      (showFrames overlappingClips { capacity := 1 } [45, 0, 20, 45]).1 =
        [45, 0, 20, 45].flatMap fun frame =>
          (clipsIn overlappingClips frame).map (freshlyShown frame) := by
  have runSeparates : Digest.Separates (crowdedRun.filterMap Request.batch?) := by
    decide +kernel
  have clipsSeparate : Digest.Separates ([45, 0, 20, 45].flatMap fun frame =>
      (clipsIn overlappingClips frame).map Clip.descriptions) := by
    decide +kernel
  exact ⟨runSeparates, clipsSeparate, (answers_eq_fresh_answers 1).1 _ runSeparates,
    (answers_eq_fresh_answers 1).2 _ _ clipsSeparate⟩

end Playback
end Montage
