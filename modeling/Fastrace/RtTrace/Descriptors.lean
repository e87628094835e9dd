import Fastrace.RtTrace.FlushCall

/-!
# Descriptors

The first span of a thread adds the descriptor of the thread to a map that lives as long as the process, and adding a
descriptor twice panics.  Its key is the name and the id of the thread, and the id may be that of a thread that has
exited: a thread that has both from an exited thread cannot create a span (`span_returns_iff`).
-/

namespace RtTrace

/-! ### The map -/

private theorem get?_foldl_insert (l : List RawSpan) (m : HashMap RawSpan Bool) (d : RawSpan) :
    (l.foldl (fun m span => m.insert span true) m).get? d = if d ∈ l then some true else m.get? d := by
  induction l generalizing m with
  | nil => simp
  | cons span l ih =>
    rw [List.foldl_cons, ih, HashMap.get?_insert]
    by_cases hd : d = span
    · simp [hd]
    · simp [hd]

theorem mem_drained {order : IterOrder RawSpan} {m : HashMap RawSpan Bool} {d : RawSpan} :
    d ∈ (drainDescriptors order m).1 ↔ m.get? d = some false := by
  unfold drainDescriptors
  simp only [List.mem_filter, (order.perm m.keys).mem_iff, HashMap.mem_keys, decide_eq_true_iff]
  exact ⟨fun h => h.2, fun h => ⟨by rw [h]; rfl, h⟩⟩

/-- Draining marks the drained descriptors and keeps all. -/
theorem get?_drained (order : IterOrder RawSpan) (m : HashMap RawSpan Bool) (d : RawSpan) :
    (drainDescriptors order m).2.get? d = if m.get? d = some false then some true else m.get? d := by
  have hmem : d ∈ (drainDescriptors order m).1 ↔ m.get? d = some false := mem_drained
  unfold drainDescriptors at hmem ⊢
  simp only at hmem ⊢
  rw [get?_foldl_insert]
  simp only [hmem]

theorem get?_drained_isSome {order : IterOrder RawSpan} {m : HashMap RawSpan Bool} {d : RawSpan} :
    ((drainDescriptors order m).2.get? d).isSome = true ↔ (m.get? d).isSome = true := by
  rw [get?_drained]
  split
  · rename_i hd
    rw [hd]
    exact Iff.rfl
  · exact Iff.rfl

theorem addDescriptor_eq_some {m m' : HashMap RawSpan Bool} {d : RawSpan} (h : addDescriptor m d = some m') :
    m.get? d = none ∧ m' = m.insert d false := by
  unfold addDescriptor at h
  split at h
  · cases h
  · rename_i hnone
    cases h
    exact ⟨by simpa using hnone, rfl⟩

/-- Nothing else is in the map after a descriptor has been added if it was not known. -/
private theorem isSome_of_added {m m' : HashMap RawSpan Bool} {d : RawSpan} {known : Bool}
    (hadd : (if known then some m else addDescriptor m d) = some m') (d' : RawSpan) :
    (m'.get? d').isSome = true ↔ (m.get? d').isSome = true ∨ known = false ∧ d' = d := by
  split at hadd
  · rename_i hknown
    cases hadd
    simp [hknown]
  · rename_i hunknown
    obtain ⟨-, rfl⟩ := addDescriptor_eq_some hadd
    rw [HashMap.get?_insert]
    by_cases hd : d' = d <;> simp [hd, hunknown]

/-! ### The descriptors of a run -/

variable {T : Type}

/-- The descriptors are those of the threads that have created a span, and that of the process after a flush. -/
structure Described (info : T → ThreadInfo) (w : World T) : Prop where
  thread : ∀ u, w.initialized u = true → (w.descriptors.get? (threadDescriptor (info u))).isSome = true
  of : ∀ d, (w.descriptors.get? d).isSome = true →
    (∃ u, w.initialized u = true ∧ d = threadDescriptor (info u)) ∨ w.flushedOnce = true ∧ d.typ = .processDiscriptor
  life : ∀ u, w.initialized u = true → u ∈ w.alive ∨ u ∈ w.exited
  ids : ∀ u ∈ w.alive, ∀ v ∈ w.alive, u ≠ v → (info u).id ≠ (info v).id

section Step

variable [DecidableEq T] {info : T → ThreadInfo} {w w' : World T} {t : T}

omit [DecidableEq T] in
private theorem described_of_same (h : Described info w) (hdescriptors : w'.descriptors = w.descriptors)
    (hinitialized : w'.initialized = w.initialized) (hflushed : w'.flushedOnce = w.flushedOnce)
    (halive : w'.alive = w.alive) (hexited : w'.exited = w.exited) : Described info w' := by
  refine ⟨?_, ?_, ?_, ?_⟩
  · rw [hinitialized, hdescriptors]; exact h.thread
  · rw [hinitialized, hdescriptors, hflushed]; exact h.of
  · rw [hinitialized, halive, hexited]; exact h.life
  · rw [halive]; exact h.ids

/-- The first span of a thread adds the descriptor of the thread. -/
private theorem described_span (h : Described info w) (halive : t ∈ w.alive) {descriptors : HashMap RawSpan Bool}
    (hadd : (if w.initialized t then some w.descriptors else
      addDescriptor w.descriptors (threadDescriptor (info t))) = some descriptors)
    (hdescriptors : w'.descriptors = descriptors)
    (hinitialized : w'.initialized = Function.update w.initialized t true)
    (hflushed : w'.flushedOnce = w.flushedOnce) (hlife : w'.alive = w.alive) (hexited : w'.exited = w.exited) :
    Described info w' := by
  have hget := isSome_of_added hadd
  have hupdate : ∀ u, w'.initialized u = true ↔ w.initialized u = true ∨ u = t := by
    intro u
    rw [hinitialized]
    by_cases hu : u = t <;> simp [hu]
  constructor
  case thread =>
    intro u hu
    rw [hdescriptors, hget]
    rcases (hupdate u).1 hu with hold | rfl
    · exact Or.inl (h.thread u hold)
    · cases hinit : w.initialized u with
      | true => exact Or.inl (h.thread u hinit)
      | false => exact Or.inr ⟨rfl, rfl⟩
  case of =>
    intro d hd
    rw [hdescriptors, hget] at hd
    rcases hd with hd | ⟨-, rfl⟩
    · rw [hflushed]
      exact (h.of d hd).imp_left fun ⟨u, hu, hsame⟩ => ⟨u, (hupdate u).2 (Or.inl hu), hsame⟩
    · exact Or.inl ⟨t, (hupdate t).2 (Or.inr rfl), rfl⟩
  case life =>
    intro u hu
    rw [hlife, hexited]
    rcases (hupdate u).1 hu with hold | rfl
    · exact h.life u hold
    · exact Or.inl halive
  case ids =>
    rw [hlife]
    exact h.ids

omit [DecidableEq T] in
/-- The first flush call adds the descriptor of the process. -/
private theorem described_drain (h : Described info w) {descriptors : HashMap RawSpan Bool}
    (hadd : (if w.flushedOnce then some w.descriptors else
      addDescriptor w.descriptors (processDescriptor (info t))) = some descriptors)
    (hdescriptors : w'.descriptors = descriptors) (hinitialized : w'.initialized = w.initialized)
    (hflushed : w'.flushedOnce = true) (hlife : w'.alive = w.alive) (hexited : w'.exited = w.exited) :
    Described info w' := by
  have hget := isSome_of_added hadd
  constructor
  case thread =>
    intro u hu
    rw [hinitialized] at hu
    rw [hdescriptors, hget]
    exact Or.inl (h.thread u hu)
  case of =>
    intro d hd
    rw [hdescriptors, hget] at hd
    rw [hinitialized]
    rcases hd with hd | ⟨-, rfl⟩
    · exact (h.of d hd).imp_right fun hprocess => ⟨hflushed, hprocess.2⟩
    · exact Or.inr ⟨hflushed, rfl⟩
  case life =>
    rw [hinitialized, hlife, hexited]
    exact h.life
  case ids =>
    rw [hlife]
    exact h.ids

private theorem described_send {w₁ : World T} {command : Command} (hsend : w₁.sendCommand t command = some w')
    (h : Described info w₁) : Described info w' := by
  have hkeeps := sendCommand_keeps hsend
  exact described_of_same h hkeeps.descriptors hkeeps.initialized hkeeps.flushedOnce hkeeps.alive hkeeps.exited

theorem Described.step (h : Described info w) {a : T × Op} (hw : w.step info a = some w') : Described info w' := by
  obtain ⟨t, op⟩ := a
  cases step_transition hw with
  | threadStart hnew hids =>
    refine ⟨h.thread, h.of, fun u hu => (h.life u hu).imp_left (List.mem_cons_of_mem _), ?_⟩
    intro u hu v hv hne
    rcases List.mem_cons.1 hu with hut | hu'
    · rcases List.mem_cons.1 hv with hvt | hv'
      · exact absurd (hut.trans hvt.symm) hne
      · exact hut ▸ (hids v hv').symm
    · rcases List.mem_cons.1 hv with hvt | hv'
      · exact hvt ▸ hids u hu'
      · exact h.ids u hu' v hv' hne
  | threadExit hfree =>
    refine ⟨h.thread, h.of, fun u hu => ?_, fun u hu v hv =>
      h.ids u (List.mem_of_mem_erase hu) v (List.mem_of_mem_erase hv)⟩
    rcases h.life u hu with hu | hu
    · by_cases hut : u = t
      · exact Or.inr (hut ▸ List.mem_cons_self ..)
      · exact Or.inl ((List.mem_erase_of_ne hut).2 hu)
    · exact Or.inr (List.mem_cons_of_mem _ hu)
  | span hfree hspan henabled hadd =>
    unfold World.free at hfree
    rw [decide_eq_true_iff] at hfree
    exact described_span h hfree.1 hadd rfl rfl rfl rfl rfl
  | pushBatch hphase hqueue hpush hsend => exact described_send hsend (described_of_same h rfl rfl rfl rfl rfl)
  | flushShard hphase hindex hqueue hsend => exact described_send hsend (described_of_same h rfl rfl rfl rfl rfl)
  | drainNothing hphase hadd hbuf => exact described_drain h hadd rfl rfl rfl rfl rfl
  | drain hphase hadd hbuf => exact described_drain h hadd rfl rfl rfl rfl rfl
  | consume hphase =>
    exact ⟨fun u hu => get?_drained_isSome.2 (h.thread u hu), fun d hd => h.of d (get?_drained_isSome.1 hd), h.life,
      h.ids⟩
  | _ => exact described_of_same h rfl rfl rfl rfl rfl

end Step

section Run

variable [DecidableEq T] {info : T → ThreadInfo} {shardNum : Nat} {hpos : 0 < shardNum} {as : List (T × Op)}
  {w : World T}

omit [DecidableEq T] in
theorem described_init (shardNum : Nat) (hpos : 0 < shardNum) :
    Described info (World.init shardNum hpos : World T) :=
  ⟨fun u hu => (by cases hu), fun d hd => (by cases hd), fun u hu => (by cases hu), fun u hu => (by cases hu)⟩

theorem described_of_run (hrun : Steps.run (World.step info) (World.init shardNum hpos) as = some w) :
    Described info w :=
  Steps.run_induction (fun _ _ _ h hw => h.step hw) (described_init shardNum hpos) hrun

/-- The first flush adds the descriptor of the process, and no later one does. -/
theorem flush_adds_descriptor (hrun : Steps.run (World.step info) (World.init shardNum hpos) as = some w) (t : T) :
    (w.drain info t).isSome = true := by
  have hdescribed := described_of_run hrun
  unfold World.drain
  rw [Option.isSome_map]
  split
  · rfl
  · rename_i hflushed
    have hnone : (w.descriptors.get? (processDescriptor (info t))).isSome = false := by
      by_contra hsome
      rcases hdescribed.of _ (eq_true_of_ne_false hsome) with ⟨u, -, hu⟩ | ⟨hflushed', -⟩
      · exact absurd (congrArg RawSpan.typ hu) (by simp [processDescriptor, threadDescriptor])
      · exact hflushed hflushed'
    simp [addDescriptor, hnone]

/-- The descriptor of the thread is that of a thread that has created a span and exited. -/
def DescriptorTaken (info : T → ThreadInfo) (w : World T) (t : T) : Prop :=
  ∃ u ∈ w.exited, w.initialized u = true ∧ threadDescriptor (info u) = threadDescriptor (info t)

/-- In every state of a run a thread can create a span exactly if tracing is stopped, it has created one before, or
its descriptor is not that of an exited thread that has. -/
theorem span_returns_iff (hrun : Steps.run (World.step info) (World.init shardNum hpos) as = some w) {t : T}
    (hfree : w.free t = true) {h : Var} (hh : w.spans h = none) (typ : SpanType) (now : Fastrace.Instant) :
    (w.step info (t, .span h typ now)).isSome = true ↔
      (w.enabled = true → w.initialized t = false → ¬DescriptorTaken info w t) := by
  have hdescribed := described_of_run hrun
  have halive : t ∈ w.alive := by
    unfold World.free at hfree
    rw [decide_eq_true_iff] at hfree
    exact hfree.1
  have htaken : w.initialized t = false →
      ((w.descriptors.get? (threadDescriptor (info t))).isSome = true ↔ DescriptorTaken info w t) := by
    intro hinit
    constructor
    · intro hsome
      rcases hdescribed.of _ hsome with ⟨u, hu, hsame⟩ | ⟨-, htyp⟩
      · refine ⟨u, ?_, hu, hsame.symm⟩
        rcases hdescribed.life u hu with hu' | hu'
        · have hne : u ≠ t := by
            rintro rfl
            rw [hinit] at hu
            cases hu
          exact absurd (congrArg RawSpan.threadId hsame).symm (hdescribed.ids u hu' t halive hne)
        · exact hu'
      · cases htyp
    · rintro ⟨u, -, hu, hsame⟩
      exact hsame ▸ hdescribed.thread u hu
  have hstep : w.step info (t, .span h typ now) = w.newSpan info t h typ now := if_pos hfree
  rw [hstep, World.newSpan, hh]
  cases henabled : w.enabled with
  | false => simp
  | true =>
    cases hinit : w.initialized t with
    | true => simp
    | false =>
      have hadd : (addDescriptor w.descriptors (threadDescriptor (info t))).isSome = true ↔
          ¬(w.descriptors.get? (threadDescriptor (info t))).isSome = true := by
        unfold addDescriptor
        split <;> simp_all
      simp only [Option.isSome_none, Bool.false_eq_true, ↓reduceIte, Option.isSome_map, hadd, htaken hinit,
        forall_const]

end Run

/-- A thread creates a span and exits, and the next thread gets its id. -/
def reuseId : List (TwoThreads × Op) := List.flatten [
  [(.a, .threadStart), (.a, .start), (.a, .span 0 .runtimePark ⟨5⟩), (.a, .dropSpan 0 ⟨6⟩)], nexts .a 1,
  [(.a, .threadExit), (.b, .threadStart)]]

def withNames (name name' : String) : TwoThreads → ThreadInfo
  | .a => ⟨1, some name⟩
  | .b => ⟨1, some name'⟩

def reused (name name' : String) : World TwoThreads :=
  runFrom (withNames name name') (World.init 16 sixteen_pos) reuseId

theorem span_returns_renamed :
    ((reused "worker-1" "worker-2").step (withNames "worker-1" "worker-2")
      (.b, .span 1 .runtimePark ⟨7⟩)).isSome = true := by
  have hrun : Steps.run (World.step (withNames "worker-1" "worker-2")) (World.init 16 sixteen_pos) reuseId =
      some (reused "worker-1" "worker-2") := run_eq_runFrom (by decide +kernel)
  refine (span_returns_iff hrun (by decide +kernel) (by decide +kernel) .runtimePark ⟨7⟩).2 fun _ _ => ?_
  rintro ⟨u, hexited, -, hsame⟩
  cases u with
  | a => exact absurd hsame (by decide)
  | b => exact absurd hexited (by decide +kernel)

/-- With the name of the first thread as well the second one cannot create a span. -/
theorem span_panics_reused :
    Steps.run (World.step (withNames "worker" "worker")) (World.init 16 sixteen_pos) reuseId =
        some (reused "worker" "worker") ∧
      (reused "worker" "worker").free .b = true ∧ (reused "worker" "worker").enabled = true ∧
      (reused "worker" "worker").spans 1 = none ∧
      addDescriptor (reused "worker" "worker").descriptors (threadDescriptor (withNames "worker" "worker" .b)) = none ∧
      ((reused "worker" "worker").step (withNames "worker" "worker") (.b, .span 1 .runtimePark ⟨7⟩)).isNone = true := by
  have hrun : Steps.run (World.step (withNames "worker" "worker")) (World.init 16 sixteen_pos) reuseId =
      some (reused "worker" "worker") := run_eq_runFrom (by decide +kernel)
  refine ⟨hrun, by decide +kernel, by decide +kernel, by decide +kernel, ?_, by decide +kernel⟩
  exact Option.isNone_iff_eq_none.1 (by decide +kernel)

end RtTrace
