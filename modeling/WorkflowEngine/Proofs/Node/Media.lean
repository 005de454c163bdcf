import WorkflowEngine.Proofs.Interleaving
import WorkflowEngine.Proofs.Node.Joining
import WorkflowEngine.Proofs.Node.Places
import WorkflowEngine.Proofs.Node.Visits

/-!
# Media of visits

Which of the media that steps give come out of a visit. A group that is completed and a parallel
node hand on the media of all their children; a group that is halted and a loop hand on those of
their last visit and drop the others. Main statements: the media of an output are those its course
keeps, and these are all media of its leaves exactly when what the course drops has none.
-/

namespace WorkflowEngine

namespace MediaSet

attribute [ext] MediaSet

@[simp] theorem images_append (a b : MediaSet) : (a ++ b).images = a.images ++ b.images := rfl

@[simp] theorem videos_append (a b : MediaSet) : (a ++ b).videos = a.videos ++ b.videos := rfl

@[simp] theorem audio_append (a b : MediaSet) : (a ++ b).audio = a.audio ++ b.audio := rfl

@[simp] theorem append_empty (a : MediaSet) : a ++ ({} : MediaSet) = a := by
  ext1 <;> simp

theorem append_assoc (a b c : MediaSet) : a ++ b ++ c = a ++ (b ++ c) := by
  ext1 <;> simp

theorem append_right_inj {a b c : MediaSet} : a ++ b = a ++ c ↔ b = c := by
  simp [MediaSet.ext_iff]

/-- The media of some outputs, in order. -/
def ofOutputs : List StepOutput → MediaSet
  | [] => {}
  | o :: rest => o.media ++ ofOutputs rest

@[simp] theorem ofOutputs_append (l l' : List StepOutput) :
    ofOutputs (l ++ l') = ofOutputs l ++ ofOutputs l' := by
  induction l with
  | nil => rfl
  | cons o rest ih => rw [List.cons_append, ofOutputs, ofOutputs, ih, append_assoc]

/-- The number of artifacts. -/
def size (m : MediaSet) : Nat := m.images.length + m.videos.length + m.audio.length

theorem size_append (a b : MediaSet) : (a ++ b).size = a.size + b.size := by
  simp only [size, images_append, videos_append, audio_append, List.length_append]
  omega

theorem size_eq_zero {m : MediaSet} : m.size = 0 ↔ m.isEmpty = true := by
  simp [size, isEmpty, and_assoc]

theorem size_of_perm {l l' : List StepOutput} (h : l.Perm l') :
    (ofOutputs l).size = (ofOutputs l').size := by
  induction h with
  | nil => rfl
  | cons o _ ih => simp only [ofOutputs, size_append, ih]
  | swap o o' l =>
    simp only [ofOutputs, size_append]
    omega
  | trans _ _ ih ih' => exact ih.trans ih'

theorem size_ofOutputs_eq_zero {l : List StepOutput} :
    (ofOutputs l).size = 0 ↔ ∀ o ∈ l, o.media.isEmpty = true := by
  induction l with
  | nil => simp [ofOutputs, size]
  | cons o rest ih =>
    rw [ofOutputs, size_append, Nat.add_eq_zero_iff, ih, size_eq_zero, List.forall_mem_cons]

/-- Of a part of some outputs there are no more media of any kind. -/
theorem sublist_ofOutputs {l l' : List StepOutput} (h : l.Sublist l') :
    (ofOutputs l).images.Sublist (ofOutputs l').images ∧
      (ofOutputs l).videos.Sublist (ofOutputs l').videos ∧
      (ofOutputs l).audio.Sublist (ofOutputs l').audio := by
  induction h with
  | slnil => exact ⟨.slnil, .slnil, .slnil⟩
  | cons o _ ih =>
    obtain ⟨hi, hv, ha⟩ := ih
    exact ⟨hi.trans (List.sublist_append_right ..), hv.trans (List.sublist_append_right ..),
      ha.trans (List.sublist_append_right ..)⟩
  | cons_cons o _ ih =>
    obtain ⟨hi, hv, ha⟩ := ih
    exact ⟨hi.append_left _, hv.append_left _, ha.append_left _⟩

/-- A part of some outputs has all their media exactly when the others have none. -/
theorem ofOutputs_eq_iff {l part others : List StepOutput} (hs : part.Sublist l)
    (hp : l.Perm (part ++ others)) :
    ofOutputs part = ofOutputs l ↔ ∀ o ∈ others, o.media.isEmpty = true := by
  have hsize : (ofOutputs l).size = (ofOutputs part).size + (ofOutputs others).size := by
    rw [size_of_perm hp, ofOutputs_append, size_append]
  rw [← size_ofOutputs_eq_zero]
  refine ⟨fun h => ?_, fun h => ?_⟩
  · rw [h] at hsize
    omega
  · obtain ⟨hi, hv, ha⟩ := sublist_ofOutputs hs
    have hilen := hi.length_le
    have hvlen := hv.length_le
    have halen := ha.length_le
    simp only [size] at hsize h
    ext1
    · exact hi.eq_of_length (by omega)
    · exact hv.eq_of_length (by omega)
    · exact ha.eq_of_length (by omega)

end MediaSet

namespace Course

mutual

/-- The outputs whose media come out of a visit. -/
def kept : Course → List StepOutput
  | leaf output => [output]
  | group visits | parallel visits => keptOf visits
  | halted visits | loop visits => keptLast visits

def keptOf : List Course → List StepOutput
  | [] => []
  | c :: rest => c.kept ++ keptOf rest

/-- Those that come out of the last of some visits. -/
def keptLast : List Course → List StepOutput
  | [] => []
  | c :: rest => if rest.isEmpty then c.kept else keptLast rest

end

mutual

/-- The outputs whose media are lost in a visit. -/
def dropped : Course → List StepOutput
  | leaf _ => []
  | group visits | parallel visits => droppedOf visits
  | halted visits | loop visits => droppedBefore visits

def droppedOf : List Course → List StepOutput
  | [] => []
  | c :: rest => c.dropped ++ droppedOf rest

/-- Those that are lost when only the last of some visits counts. -/
def droppedBefore : List Course → List StepOutput
  | [] => []
  | c :: rest => if rest.isEmpty then c.dropped else c.leaves ++ droppedBefore rest

end

mutual

/-- The outputs of the steps may be given in this order: those of visits side by side in any, each
visit keeping its own. -/
def Unfolds : Course → List StepOutput → Prop
  | leaf output, l => l = [output]
  | group visits, l | halted visits, l | loop visits, l => UnfoldsInTurn visits l
  | parallel visits, l => UnfoldsBeside visits l

def UnfoldsInTurn : List Course → List StepOutput → Prop
  | [], l => l = []
  | c :: rest, l => ∃ u v, c.Unfolds u ∧ UnfoldsInTurn rest v ∧ l = u ++ v

def UnfoldsBeside : List Course → List StepOutput → Prop
  | [], l => l = []
  | c :: rest, l => ∃ u v, c.Unfolds u ∧ UnfoldsBeside rest v ∧ Interleave u v l

end

mutual

/-- What is given are the leaves, each once. -/
theorem Unfolds.perm : {c : Course} → {l : List StepOutput} → c.Unfolds l → l.Perm c.leaves
  | .leaf _, _, h => h ▸ .refl _
  | .group _, _, h | .halted _, _, h | .loop _, _, h => UnfoldsInTurn.perm h
  | .parallel _, _, h => UnfoldsBeside.perm h

theorem UnfoldsInTurn.perm : {visits : List Course} → {l : List StepOutput} →
    UnfoldsInTurn visits l → l.Perm (leavesOf visits)
  | [], _, h => h ▸ .refl _
  | _ :: _, _, ⟨_, _, hc, hrest, h⟩ => h ▸ hc.perm.append (UnfoldsInTurn.perm hrest)

theorem UnfoldsBeside.perm : {visits : List Course} → {l : List StepOutput} →
    UnfoldsBeside visits l → l.Perm (leavesOf visits)
  | [], _, h => h ▸ .refl _
  | _ :: _, _, ⟨_, _, hc, hrest, h⟩ =>
    h.perm.trans (hc.perm.append (UnfoldsBeside.perm hrest))

end

mutual

theorem kept_sublist : (c : Course) → c.kept.Sublist c.leaves
  | .leaf _ => .refl _
  | .group visits | .parallel visits => keptOf_sublist visits
  | .halted visits | .loop visits => keptLast_sublist visits

theorem keptOf_sublist : (visits : List Course) → (keptOf visits).Sublist (leavesOf visits)
  | [] => .slnil
  | c :: rest => (kept_sublist c).append (keptOf_sublist rest)

theorem keptLast_sublist : (visits : List Course) → (keptLast visits).Sublist (leavesOf visits)
  | [] => .slnil
  | c :: rest => by
    unfold keptLast leavesOf
    split
    · exact (kept_sublist c).trans (List.sublist_append_left ..)
    · exact (keptLast_sublist rest).trans (List.sublist_append_right ..)

end

mutual

/-- Every leaf is kept or dropped. -/
theorem leaves_perm : (c : Course) → c.leaves.Perm (c.kept ++ c.dropped)
  | .leaf _ => .refl _
  | .group visits | .parallel visits => leavesOf_perm visits
  | .halted visits | .loop visits => leavesOf_perm_last visits

theorem leavesOf_perm : (visits : List Course) →
    (leavesOf visits).Perm (keptOf visits ++ droppedOf visits)
  | [] => .nil
  | c :: rest => by
    have hparts := (leaves_perm c).append (leavesOf_perm rest)
    unfold leavesOf keptOf droppedOf
    refine hparts.trans ?_
    simp only [List.append_assoc]
    refine List.Perm.append_left _ ?_
    simp only [← List.append_assoc]
    exact List.perm_append_comm.append_right _

theorem leavesOf_perm_last : (visits : List Course) →
    (leavesOf visits).Perm (keptLast visits ++ droppedBefore visits)
  | [] => .nil
  | c :: rest => by
    unfold leavesOf keptLast droppedBefore
    split
    · obtain rfl : rest = [] := by simpa using ‹rest.isEmpty = true›
      simpa [leavesOf] using leaves_perm c
    · refine ((leavesOf_perm_last rest).append_left c.leaves).trans ?_
      simp only [← List.append_assoc]
      exact List.perm_append_comm.append_right _

end

/-- The media that come out of some visits are all media of their leaves exactly when what they
drop has none. -/
theorem ofOutputs_keptOf_eq_iff (visits : List Course) :
    MediaSet.ofOutputs (keptOf visits) = MediaSet.ofOutputs (leavesOf visits) ↔
      ∀ o ∈ droppedOf visits, o.media.isEmpty = true :=
  MediaSet.ofOutputs_eq_iff (keptOf_sublist visits) (leavesOf_perm visits)

theorem keptLast_append (visits : List Course) {later : List Course} (h : later ≠ []) :
    keptLast (visits ++ later) = keptLast later := by
  induction visits with
  | nil => rfl
  | cons c rest ih => simp [keptLast, h, ih]

theorem UnfoldsInTurn.append {visits later : List Course} {l l' : List StepOutput}
    (h : UnfoldsInTurn visits l) (h' : UnfoldsInTurn later l') :
    UnfoldsInTurn (visits ++ later) (l ++ l') := by
  induction visits generalizing l with
  | nil => exact h ▸ h'
  | cons c rest ih =>
    obtain ⟨u, v, hc, hrest, rfl⟩ := h
    exact ⟨u, v ++ l', hc, ih hrest, List.append_assoc ..⟩

end Course

open TaskAccount

namespace Node

/-- Whether a step has this name. -/
def isStepName (nodes : List Node) (x : String) : Bool :=
  (descendants nodes).any fun n => n.isLeaf && n.name == x

/-- The outputs that the steps of some nodes give, in order. -/
def stepOutputs (nodes : List Node) (t : List Happening) : List StepOutput := t.filterMap fun
  | .gave x o => if isStepName nodes x then some o else none
  | _ => none

theorem isStepName_of_mem {nodes : List Node} (hn : (names nodes).Nodup) {n : Node}
    (h : n ∈ descendants nodes) : isStepName nodes n.name = n.isLeaf := by
  cases hl : n.isLeaf with
  | true => exact List.any_eq_true.2 ⟨n, h, by simp [hl]⟩
  | false =>
    refine List.any_eq_false.2 fun m hm hx => ?_
    simp only [Bool.and_eq_true, beq_iff_eq] at hx
    obtain rfl : m = n := List.inj_on_of_nodup_map hn hm h hx.2
    rw [hx.1] at hl
    cases hl

@[simp] theorem stepOutputs_append (nodes : List Node) (t u : List Happening) :
    stepOutputs nodes (t ++ u) = stepOutputs nodes t ++ stepOutputs nodes u :=
  List.filterMap_append

@[simp] theorem stepOutputs_entered (nodes : List Node) (x : String) (input : StepInput)
    (t : List Happening) : stepOutputs nodes (.entered x input :: t) = stepOutputs nodes t := rfl

theorem stepOutputs_called (nodes : List Node) (k : Nat) (x : String) (input : StepInput) :
    stepOutputs nodes (List.replicate k (.called x input)) = [] := by
  induction k with
  | zero => rfl
  | succ k ih => exact ih

theorem stepOutputs_gave (nodes : List Node) (x : String) (o : StepOutput) :
    stepOutputs nodes [.gave x o] = if isStepName nodes x then [o] else [] := by
  unfold stepOutputs
  rw [List.filterMap_cons]
  split <;> rename_i h <;> split at h <;> simp_all

/-- Where the media of an output come from: those its course keeps of the outputs given. -/
structure Yields (whole : List Node) (t : List Happening) (o : StepOutput) (c : Course) : Prop where
  media : o.media = .ofOutputs c.kept
  told : c.Unfolds (stepOutputs whole t)

/-- Where the media of a sequence come from. -/
structure SequenceYields (whole nodes : List Node) (t : List Happening) (q : Sequence)
    (visits : List Course) : Prop where
  media : match q with
    | .completed output _ produced => produced = .ofOutputs (Course.keptOf visits) ∧
        output.media = .ofOutputs (Course.keptLast visits) ∧ visits ≠ []
    | .halted output => output.media = .ofOutputs (Course.keptLast visits) ∧ visits ≠ []
    | .empty _ => visits = []
  told : Course.UnfoldsInTurn visits (stepOutputs whole t)
  filled : visits = [] ↔ nodes = []

variable {whole : List Node}

theorem Dates.media {n : Node} {o o' : StepOutput} (h : n.Dates o o') : o'.media = o.media := by
  obtain ⟨durationMs, rfl⟩ := h.exists_duration
  rfl

theorem yields_around {n : Node} {input : StepInput} {A : TaskAccount (StepOutput × Course)}
    (hA : A.Says (fun _ => True) fun t p =>
      ∀ o, n.Dates p.1 o → Yields whole (t ++ [.gave n.name o]) o p.2) :
    (n.Around input A).Says (fun _ => True) fun t p => Yields whole t p.1 p.2 := by
  rintro t r ht
  refine ⟨trivial, ?_⟩
  rintro ⟨o, c⟩ rfl
  cases ht with
  | gave h hd hr =>
    cases hr _ rfl
    obtain ⟨hmedia, htold⟩ := (hA _ _ h).2 _ rfl _ hd
    exact ⟨hmedia, by simpa using htold⟩

/-- What a node gives beside its children is no output of a step. -/
theorem yields_of_children {n : Node} {A : TaskAccount (StepOutput × Course)}
    (hn : isStepName whole n.name = false)
    (hA : A.Says (fun _ => True) fun t p => Yields whole t p.1 p.2) :
    A.Says (fun _ => True) fun t p =>
      ∀ o, n.Dates p.1 o → Yields whole (t ++ [.gave n.name o]) o p.2 := by
  refine hA.mono (fun _ ht => ht) fun t p _ hp o hd => ⟨hd.media.trans hp.media, ?_⟩
  rw [stepOutputs_append, stepOutputs_gave, hn]
  simpa using hp.told

theorem yields_step (s : Step) (hs : isStepName whole s.name = true) (input : StepInput) :
    (s.calls input).Says (fun _ => True) fun t p =>
      ∀ o, (step s).Dates p.1 o → Yields whole (t ++ [.gave s.name o]) o p.2 := by
  rintro t r ⟨⟨k, rfl⟩, hr⟩
  refine ⟨trivial, fun p hp o hd => ?_⟩
  rcases hr _ hp with ⟨fault, h, -⟩ | ⟨output, ms, h⟩
  · cases h
  · cases h
    obtain rfl : o = s.stamp output ms := by simpa [Dates, Step.stamp, isLeaf] using hd
    refine ⟨by simp [Course.kept, MediaSet.ofOutputs], ?_⟩
    rw [stepOutputs_append, stepOutputs_called, stepOutputs_gave, hs]
    simp [Course.Unfolds]

/-! ## Groups -/

theorem yields_group {nodes : List Node} {name : String} {kind : ExecutorKind}
    {A : TaskAccount (Sequence × List Course)}
    (hA : A.Says (fun _ => True) fun t p => SequenceYields whole nodes t p.1 p.2) :
    (visitGroup name kind A).Says (fun _ => True) fun t p => Yields whole t p.1 p.2 := by
  refine .map (hA.mono (fun _ ht => ht) fun t p _ hp => ?_)
  obtain ⟨q, visits⟩ := p
  obtain ⟨hmedia, htold, -⟩ := hp
  cases q with
  | completed output next produced => exact ⟨hmedia.1, htold⟩
  | halted output => exact ⟨hmedia.1, htold⟩
  | empty next =>
    obtain rfl : visits = [] := hmedia
    exact ⟨rfl, htold⟩

theorem yields_nil (input : StepInput) :
    (visitSequence [] input).Says (fun _ => True)
      fun t p => SequenceYields whole [] t p.1 p.2 :=
  .ret trivial ⟨rfl, rfl, by simp⟩

theorem yields_cons {n : Node} {rest : List Node} {input : StepInput}
    (hv : (n.Around input (visitWork input n)).Says (fun _ => True)
      fun t p => Yields whole t p.1 p.2)
    (hs : ∀ input, (visitSequence rest input).Says (fun _ => True)
      fun t p => SequenceYields whole rest t p.1 p.2) :
    (visitSequence (n :: rest) input).Says (fun _ => True)
      fun t p => SequenceYields whole (n :: rest) t p.1 p.2 := by
  unfold visitSequence
  refine .bind hv (fun _ ht => ht) fun t p _ hp => ?_
  obtain ⟨o, c⟩ := p
  obtain ⟨hmedia, htold⟩ := hp
  dsimp only
  split
  · refine .ret trivial ⟨⟨by simpa [Course.keptLast] using hmedia, by simp⟩, ?_, by simp⟩
    exact ⟨_, [], htold, rfl, by simp⟩
  · refine .map ((hs _).mono (fun _ hu => hu) fun u q _ hq => ?_)
    obtain ⟨q, visits⟩ := q
    obtain ⟨hrest, hrestTold, -⟩ := hq
    refine ⟨?_, ⟨_, _, htold, hrestTold, stepOutputs_append ..⟩, by simp⟩
    cases q with
    | completed output next produced =>
      obtain ⟨hproduced, hlast, hne⟩ := hrest
      have hlast' : Course.keptLast (c :: visits) = Course.keptLast visits :=
        Course.keptLast_append [c] hne
      have hkept : o.media ++ produced = .ofOutputs (Course.keptOf (c :: visits)) := by
        rw [Course.keptOf, MediaSet.ofOutputs_append]
        exact congr (congrArg _ hmedia) hproduced
      exact ⟨hkept, hlast.trans (congrArg _ hlast'.symm), fun h => nomatch h⟩
    | halted output =>
      obtain ⟨hlast, hne⟩ := hrest
      have hlast' : Course.keptLast (c :: visits) = Course.keptLast visits :=
        Course.keptLast_append [c] hne
      exact ⟨hlast.trans (congrArg _ hlast'.symm), fun h => nomatch h⟩
    | empty next =>
      obtain rfl : visits = [] := hrest
      refine ⟨?_, ?_, fun h => nomatch h⟩
      · simpa [Course.keptOf] using hmedia
      · simpa [Course.keptLast] using hmedia

end Node

/-! ## Loops -/

namespace Loop

open Node

variable {whole nodes : List Node} {name : String}
  {ends : Option (List StepOutput → Except String Bool)}
  {body : StepInput → TaskAccount (Sequence × List Course)}

/-- Where the media of a loop come from: its last visit. -/
structure Yields (whole nodes : List Node) (t : List Happening) (result : LoopResult)
    (visits : List Course) : Prop where
  media : result.output.media = .ofOutputs (Course.keptLast visits)
  told : Course.UnfoldsInTurn visits (stepOutputs whole t)
  filled : visits = [] → nodes = []

/-- What follows an iteration with an output: nothing more, or further visits. -/
def Follows (whole nodes : List Node) (output : StepOutput) (u : List Happening)
    (p : LoopResult × List Course) : Prop :=
  Loop.Yields whole nodes u p.1 p.2 ∨
    p.2 = [] ∧ p.1.output.media = output.media ∧ stepOutputs whole u = []

theorem media_finish (name : String) (output : StepOutput) (iterations : List StepOutput)
    (state : LoopState) : (finish name output iterations state).output.media = output.media := by
  unfold finish
  dsimp only
  split <;> rfl

variable (hb : ∀ input, (body input).Says (fun _ => True)
  fun t p => SequenceYields whole nodes t p.1 p.2)

include hb

private theorem yields_round {done : List StepOutput} {input : StepInput}
    {otherwise : StepOutput → List StepOutput → StepInput → TaskAccount (LoopResult × List Course)}
    (ho : ∀ output done next,
      (otherwise output done next).Says (fun _ => True) (Follows whole nodes output)) :
    (round name ends body done input otherwise).Says (fun _ => True)
      fun t p => Loop.Yields whole nodes t p.1 p.2 := by
  refine .unlessCancelled (.bind (hb input) (fun _ ht => ht) fun t p _ hp => ?_) trivial
  obtain ⟨q, visits⟩ := p
  obtain ⟨hmedia, htold, hfilled⟩ := hp
  have hend {output : StepOutput} (state : LoopState)
      (hm : output.media = .ofOutputs (Course.keptLast visits)) : Loop.Yields whole nodes (t ++ [])
        (finish name output (done ++ [output]) state) visits :=
    ⟨(media_finish ..).trans hm, by simpa using htold, hfilled.1⟩
  have hconclude (output : StepOutput) (next : StepInput)
      (hm : output.media = .ofOutputs (Course.keptLast visits)) :
      (round.conclude name ends done otherwise output next visits).Says (fun _ => True)
        fun u p => Loop.Yields whole nodes (t ++ u) p.1 p.2 := by
    refine .given trivial fun converged _ => ?_
    cases converged with
    | true => exact .ret trivial (hend .converged hm)
    | false =>
      refine .map ((ho output _ next).mono (fun _ hu => hu) fun u p _ hu => ?_)
      obtain ⟨result, later⟩ := p
      rcases hu with ⟨hlater, hu, hnodes⟩ | ⟨rfl, hlater, hu⟩
      · refine ⟨?_, by simpa using htold.append hu, fun h => hnodes (List.append_eq_nil_iff.1 h).2⟩
        -- Without visits there is nothing in the loop, and no visits came before either.
        by_cases hne : later = []
        · obtain rfl : visits = [] := hfilled.2 (hnodes hne)
          exact hlater
        · exact hlater.trans (congrArg _ (Course.keptLast_append visits hne).symm)
      · refine ⟨?_, by simpa [hu] using htold, fun h => hfilled.1 (List.append_eq_nil_iff.1 h).1⟩
        have hnone : Course.keptLast visits = Course.keptLast (visits ++ []) := by
          rw [List.append_nil]
        exact hlater.trans (hm.trans (congrArg _ hnone))
  cases q with
  | halted output => exact .ret trivial (hend .interrupted hmedia.1)
  | completed output next produced => exact hconclude output next hmedia.2.1
  | empty next =>
    obtain rfl : visits = [] := hmedia
    exact hconclude _ next rfl

theorem yields_rounds (left : Nat) (done : List StepOutput) (input : StepInput) :
    (rounds name ends body left done input).Says (fun _ => True)
      fun t p => Loop.Yields whole nodes t p.1 p.2 := by
  induction left generalizing done input with
  | zero =>
    exact yields_round hb fun output done _ =>
      .ret trivial (.inr ⟨rfl, media_finish .., rfl⟩)
  | succ left ih =>
    exact yields_round hb fun _ done next =>
      (ih done next).mono (fun _ ht => ht) fun _ _ _ hu => .inl hu

theorem yields_visit (maxIterations : Nat) (input : StepInput) :
    (visit name maxIterations ends body input).Says (fun _ => True)
      fun t p => Loop.Yields whole nodes t p.1 p.2 := by
  cases maxIterations with
  | zero => exact .ofResult trivial fun _ h => nomatch h
  | succ left => exact yields_rounds hb left [] input

end Loop

/-! ## Parallel children -/

namespace Join

theorem media_of_get? {outputs : KeyMap StepOutput} {names : List String} {os : List StepOutput}
    (hlen : os.length = names.length)
    (h : ∀ name o, (name, o) ∈ names.zip os → outputs.get? name = some o) :
    media outputs names = .ofOutputs os := by
  induction names generalizing os with
  | nil =>
    obtain rfl := List.eq_nil_of_length_eq_zero hlen
    rfl
  | cons name rest ih =>
    cases os with
    | nil => cases hlen
    | cons o os =>
      rw [media, h name o (by simp), MediaSet.ofOutputs, ← ih (Nat.succ.inj hlen) fun x p hp =>
        h x p (List.mem_cons_of_mem _ hp)]

theorem courses_map_ok (ps : List (StepOutput × Course)) :
    courses (ps.map .ok) = ps.map Prod.snd := by
  induction ps with
  | nil => rfl
  | cons p rest ih => rw [List.map_cons, List.map_cons, courses, ih]

end Join

namespace Node

variable {whole : List Node}

/-- Where the media of parallel children come from when all of them give an output. -/
structure Shares (whole nodes : List Node) (t : List Happening) (ps : List (StepOutput × Course)) :
    Prop where
  length : ps.length = nodes.length
  media : .ofOutputs (ps.map Prod.fst) = MediaSet.ofOutputs (Course.keptOf (ps.map Prod.snd))
  told : Course.UnfoldsBeside (ps.map Prod.snd) (stepOutputs whole t)

private theorem Shares.cons {c : Node} {rest : List Node} {t u v : List Happening}
    {p : StepOutput × Course} {ps : List (StepOutput × Course)} (hp : Yields whole u p.1 p.2)
    (hps : Shares whole rest v ps) (hi : Interleave u v t) :
    Shares whole (c :: rest) t (p :: ps) where
  length := congrArg Nat.succ hps.length
  media := by
    simp only [List.map_cons, MediaSet.ofOutputs, Course.keptOf, MediaSet.ofOutputs_append,
      hp.media, hps.media]
  told := ⟨_, _, hp.told, hps.told, hi.filterMap _⟩

/-- The media of a parallel node are those of its children. -/
theorem Shares.yields {name : String} {children : List Node} {t : List Happening}
    {ps : List (StepOutput × Course)} (hn : (children.map Node.name).Nodup)
    (h : Shares whole children t ps) :
    Yields whole t (Join.output name (children.map Node.name) (Join.outputs (children.map Node.name)
      ((ps.map Prod.fst).map .ok))) (.parallel (ps.map Prod.snd)) where
  media := by
    have hlen : (ps.map Prod.fst).length = (children.map Node.name).length := by simp [h.length]
    exact (Join.media_of_get? hlen fun name o ho => Join.get?_outputs hn ho).trans h.media
  told := h.told

/-! ## The tree -/

/-- The names of steps among some nodes. -/
private abbrev Knows (whole nodes : List Node) : Prop :=
  ∀ m ∈ descendants nodes, isStepName whole m.name = m.isLeaf

private theorem Knows.self {n : Node} (h : Knows whole [n]) : isStepName whole n.name = n.isLeaf :=
  h n (by simp [descendants_singleton])

private theorem Knows.children {n : Node} (h : Knows whole [n]) : Knows whole n.children :=
  fun m hm => h m (mem_descendants_children hm)

private theorem Knows.head {n : Node} {rest : List Node} (h : Knows whole (n :: rest)) :
    Knows whole [n] := fun m hm => h m (mem_descendants_of_mem (List.mem_cons_self ..) hm)

private theorem Knows.tail {n : Node} {rest : List Node} (h : Knows whole (n :: rest)) :
    Knows whole rest := fun m hm => h m (by rw [descendants_cons]; exact List.mem_append_right _ hm)

mutual

private theorem yields_work (input : StepInput) : (n : Node) → (names [n]).Nodup →
    Knows whole [n] → (visitWork input n).Says (fun _ => True) fun t p =>
      ∀ o, n.Dates p.1 o → Yields whole (t ++ [.gave n.name o]) o p.2
  | .step s, _, hk => yields_step s hk.self input
  | .steps name _ children, hn, hk =>
    yields_of_children hk.self
      (yields_group (yields_sequence children (nodup_children hn) hk.children input))
  | .condition name _ test children, hn, hk => by
    refine yields_of_children hk.self ?_
    unfold visitWork
    refine .given trivial fun holds _ => ?_
    split
    · exact yields_group (yields_sequence children (nodup_children hn) hk.children input)
    · exact .ret trivial ⟨rfl, rfl⟩
  | .loop name _ maxIterations ends children, hn, hk => by
    refine yields_of_children hk.self ?_
    unfold visitWork
    exact .map ((Loop.yields_visit (yields_sequence children (nodup_children hn) hk.children)
      maxIterations input).mono (fun _ ht => ht) fun t p _ hp => ⟨hp.media, hp.told⟩)
  | .parallel name _ children, hn, hk => by
    refine yields_of_children hk.self ?_
    unfold visitWork
    rintro t r ⟨q, hq, hr⟩
    refine ⟨trivial, fun p hp => ?_⟩
    obtain ⟨rs, rfl, hp⟩ := hr _ hp
    unfold Join.result at hp
    split at hp
    · cases hp
    rename_i hnone
    cases hp
    obtain ⟨os, hos⟩ := Join.eq_map_ok_of_fault? hnone
    obtain ⟨ps, rfl, rfl⟩ := Join.eq_map_ok_of_map hos
    rw [hos, Join.courses_map_ok]
    exact (yields_all input children (nodup_children hn) hk.children t ps hq).yields
      (nodup_map_name (nodup_children hn))
  | .router name _ select choices, hn, hk => by
    refine yields_of_children hk.self ?_
    unfold visitWork
    exact .given trivial fun choice _ =>
      yields_choice input choice.name choices (nodup_children hn) hk.children

private theorem yields_sequence : (nodes : List Node) → (names nodes).Nodup → Knows whole nodes →
    (input : StepInput) → (visitSequence nodes input).Says (fun _ => True)
      fun t p => SequenceYields whole nodes t p.1 p.2
  | [], _, _, input => yields_nil input
  | n :: rest, hn, hk, input =>
    yields_cons (yields_around (yields_work input n ((Within.head hn).nodup hn) hk.head))
      (yields_sequence rest ((Within.tail hn).nodup hn) hk.tail)

private theorem yields_all (input : StepInput) : (children : List Node) → (names children).Nodup →
    Knows whole children → ∀ t ps,
      Account.together (visitAll input children) t (some (ps.map Except.ok)) →
      Shares whole children t ps
  | [], _, _, t, ps, h => by
    obtain ⟨rfl, hps⟩ := h
    obtain rfl : ps = [] := by simpa using hps _ rfl
    exact ⟨rfl, rfl, rfl⟩
  | c :: rest, hn, hk, t, ps, h => by
    obtain ⟨u, p, v, q, hc, hrest, hi, hq⟩ := h
    obtain ⟨r, rs, rfl, rfl, hps⟩ := hq _ rfl
    obtain ⟨p, ps, rfl, rfl, rfl⟩ := List.map_eq_cons_iff.1 hps
    have hwork := yields_work input c ((Within.head hn).nodup hn) hk.head
    have hp : Yields whole u p.1 p.2 := (yields_around hwork u _ hc).2 p rfl
    exact .cons hp (yields_all input rest ((Within.tail hn).nodup hn) hk.tail v ps hrest) hi

private theorem yields_choice (input : StepInput) (name : String) : (choices : List Node) →
    (names choices).Nodup → Knows whole choices →
    (visitChoice input name choices).Says (fun _ => True) fun t p => Yields whole t p.1 p.2
  | [], _, _ => .ofResult trivial fun _ h => nomatch h
  | n :: rest, hn, hk => by
    unfold visitChoice
    split
    · exact yields_around (yields_work input n ((Within.head hn).nodup hn) hk.head)
    · exact yields_choice input name rest ((Within.tail hn).nodup hn) hk.tail

end

/-- The media of the output of a visit are those its course keeps of the outputs given. -/
theorem yields_visit (hw : (names whole).Nodup) {n : Node} (hn : (names [n]).Nodup)
    (hsub : ∀ m ∈ descendants [n], m ∈ descendants whole) (input : StepInput) :
    (n.visit input).Says (fun _ => True) fun t p => Yields whole t p.1 p.2 :=
  yields_around (yields_work input n hn fun m hm => isStepName_of_mem hw (hsub m hm))

end Node

end WorkflowEngine
