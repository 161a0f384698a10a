import Mathlib.Data.List.Induction
import BrokerTopology.Graph.Client
/-!
# What a latency measurement has seen

Probes are started and completed, and folds make averages of the samples, in any order: a probe may be
started twice, completed without having been started, or be in flight over several folds. This file says
what a measurement answers in terms of everything that has happened to it. Whether a completion gives a
sample, and which, is decided by the starts since the completion before it. What is reported is decided by
the samples that lie between two folds, as long as a word of 32 bits can count them.

Main statement: `measured_run`.
-/

namespace BrokerTopology

namespace Latency

/-! ## Events and answers -/

/-- What can happen to a measurement. -/
inductive Event where
  | start (now : Nat)
  | finish (now : Nat)
  | fold
  deriving DecidableEq, Repr

/-- What a measurement answers. -/
inductive Answer where
  | started
  /-- The sample, if a probe was in flight. -/
  | finished (sample : Option Float)
  /-- Whether what is reported has changed. -/
  | folded (changed : Bool)
  deriving DecidableEq, Repr

/-- The answer to an event and the measurement after it. -/
def respond (l : Latency) : Event → Answer × Latency
  | .start now => (.started, l.start now)
  | .finish now => (.finished (l.finish now).1, (l.finish now).2)
  | .fold => (.folded l.fold.1, l.fold.2)

/-- The measurement after several events, the first of the list first. -/
def run (l : Latency) (events : List Event) : Latency :=
  events.foldl (fun l e => (l.respond e).2) l

/-- The answers to several events. -/
def answers (l : Latency) : List Event → List Answer
  | [] => []
  | e :: es => (l.respond e).1 :: answers (l.respond e).2 es

variable {l : Latency} {past events : List Event} {now started : Nat}

/-- Events that happen later are answered by what the earlier ones have left. -/
theorem run_append (l : Latency) (past events : List Event) :
    l.run (past ++ events) = (l.run past).run events :=
  List.foldl_append

/-! ## The probe in flight -/

/-- A completion gives the time since the start of the probe in flight, if there is one. -/
theorem finish_fst (l : Latency) (now : Nat) :
    (l.finish now).1 = l.pending.map fun started => seconds (now - started) * 1000 := by
  rw [finish]
  cases l.pending <;> rfl

/-- A completion leaves no probe in flight. -/
theorem pending_finish (l : Latency) (now : Nat) : (l.finish now).2.pending = none := by
  rw [← Option.isNone_iff_eq_none, ← Option.isSome_eq_false_iff]
  exact isPending_finish l now

/-- Without a completion a probe stays in flight, or another one in its place. -/
theorem isSome_pending_run (hflight : l.pending.isSome = true)
    (hevents : ∀ later, .finish later ∉ events) : (l.run events).pending.isSome = true := by
  induction events generalizing l with
  | nil => exact hflight
  | cons e events ih =>
    have hrest : ∀ later, .finish later ∉ events := fun later hmem =>
      hevents later (List.mem_cons_of_mem e hmem)
    cases e with
    | start later => exact ih rfl hrest
    | finish later => exact absurd List.mem_cons_self (hevents later)
    | fold => exact ih ((congrArg Option.isSome (pending_fold l)).trans hflight) hrest

/-- Folds alone keep the probe in flight. -/
theorem pending_run (hevents : ∀ later, .start later ∉ events ∧ .finish later ∉ events) :
    (l.run events).pending = l.pending := by
  induction events generalizing l with
  | nil => rfl
  | cons e events ih =>
    have hrest : ∀ later, .start later ∉ events ∧ .finish later ∉ events := fun later =>
      ⟨fun hmem => (hevents later).1 (List.mem_cons_of_mem e hmem),
        fun hmem => (hevents later).2 (List.mem_cons_of_mem e hmem)⟩
    cases e with
    | start later => exact absurd List.mem_cons_self (hevents later).1
    | finish later => exact absurd List.mem_cons_self (hevents later).2
    | fold => exact (ih hrest).trans (pending_fold l)

/-- A probe that is in flight has been started, and none has been completed since. The induction is on
the last event. -/
theorem exists_start_of_isSome_pending (h : (empty.run past).pending.isSome = true) :
    ∃ before started after, past = before ++ .start started :: after ∧
      ∀ later, .finish later ∉ after := by
  induction past using List.reverseRecOn with
  | nil => cases h
  | append_singleton past e ih =>
    rw [run_append] at h
    cases e with
    | start now => exact ⟨past, now, [], rfl, fun _ => List.not_mem_nil⟩
    | finish now =>
      have hnone : ((empty.run past).run [.finish now]).pending = none := pending_finish _ now
      rw [hnone] at h
      cases h
    | fold =>
      have hsame : ((empty.run past).run [.fold]).pending = (empty.run past).pending := pending_fold _
      rw [hsame] at h
      obtain ⟨before, started, after, hpast, hafter⟩ := ih h
      refine ⟨before, started, after ++ [.fold], ?_, fun later hmem => ?_⟩
      · rw [hpast, List.append_assoc, List.cons_append]
      · rcases List.mem_append.mp hmem with hmem | hmem
        · exact hafter later hmem
        · cases List.mem_singleton.mp hmem

/-! ## Samples between folds -/

/-- Whether an answer is that of a fold. -/
def Answer.isFolded : Answer → Bool
  | .folded _ => true
  | _ => false

/-- The sample that an answer gives. -/
def Answer.sample? : Answer → Option Float
  | .finished sample => sample
  | _ => none

/-- The samples before the first fold, those between each fold and the next, and those since the last
fold. -/
def stretches (answers : List Answer) : List (List Float) :=
  (answers.splitOnP Answer.isFolded).map fun stretch => stretch.filterMap Answer.sample?

/-- The samples, added one after the other, divided by their number. -/
def mean (samples : List Float) : Float :=
  samples.foldl (· + ·) 0 / Float.ofNat samples.length

/-- The mean of the last stretch in which there is a sample. -/
def lastMean (stretches : List (List Float)) : Option Float :=
  (stretches.reverse.find? fun samples => !samples.isEmpty).map mean

/-- A fold at the front ends a stretch without samples. -/
theorem stretches_folded_cons (changed : Bool) (as : List Answer) :
    stretches (.folded changed :: as) = [] :: stretches as := by
  have hfolded : (Answer.folded changed).isFolded = true := rfl
  rw [stretches, List.splitOnP_cons_eq_if_modifyHead, if_pos hfolded]
  rfl

/-- Any other answer at the front adds its sample, if it has one, to the first stretch. -/
theorem stretches_cons_of_not_folded {a : Answer} (ha : a.isFolded = false) (as : List Answer) :
    stretches (a :: as) = (stretches as).modifyHead (a.sample?.toList ++ ·) := by
  rw [stretches, stretches, List.splitOnP_cons_eq_if_modifyHead, if_neg (Bool.eq_false_iff.mp ha)]
  cases as.splitOnP Answer.isFolded with
  | nil => rfl
  | cons first rest =>
    cases hsample : a.sample? with
    | none => simp [hsample]
    | some ms => simp [hsample]

/-- Stretches whose samples can be counted in a word of 32 bits. -/
def Countable (stretches : List (List Float)) : Prop :=
  ∀ samples ∈ stretches, samples.length < UInt32.size

/-- A measurement has counted the samples of the current stretch, as far as a word can. If all closed
stretches could be counted, it has added up the samples of the current one, and reports the mean of the
last closed one that has a sample. -/
structure Collects (l : Latency) (closed : List (List Float)) (current : List Float) : Prop where
  samples : l.samples = .ofNat current.length
  total : Countable closed → l.total = current.foldl (· + ·) 0
  average : Countable closed → l.average = lastMean closed

/-- Nothing has been collected at the beginning. -/
theorem collects_empty : Collects empty [] [] :=
  ⟨rfl, fun _ => rfl, fun _ => rfl⟩

namespace Collects

variable {closed : List (List Float)} {current : List Float}

/-- The number of samples, where a word can count them. -/
theorem toNat_samples (h : l.Collects closed current) (hfits : current.length < UInt32.size) :
    l.samples.toNat = current.length := by
  rw [h.samples, UInt32.toNat_ofNat', Nat.mod_eq_of_lt hfits]

/-- A completion collects its sample, if it has one. -/
theorem finish (h : l.Collects closed current) (now : Nat) :
    (l.finish now).2.Collects closed (current ++ (l.finish now).1.toList) := by
  rw [Latency.finish]
  cases l.pending with
  | none =>
    rw [Option.toList_none, List.append_nil]
    exact h
  | some started =>
    refine ⟨?_, fun hclosed => ?_, h.average⟩
    · rw [Option.toList_some, List.length_append, UInt32.ofNat_add, ← h.samples]
      rfl
    · rw [Option.toList_some, List.foldl_append, ← h.total hclosed]
      rfl

/-- A fold closes the current stretch. -/
theorem fold (h : l.Collects closed current) : l.fold.2.Collects (closed ++ [current]) [] := by
  have hlast : lastMean (closed ++ [current]) =
      if current.isEmpty then lastMean closed else some (mean current) := by
    rw [lastMean, List.reverse_append, List.reverse_singleton, List.singleton_append, List.find?_cons]
    cases current.isEmpty with
    | true => rfl
    | false => rfl
  have hfits : Countable (closed ++ [current]) → Countable closed ∧ current.length < UInt32.size := by
    intro hall
    exact ⟨fun samples hmem => hall samples (List.mem_append_left _ hmem),
      hall current (List.mem_append_right _ (List.mem_singleton_self current))⟩
  rw [Latency.fold]
  split
  · rename_i hnone
    -- a word that can count the stretch shows zero only if there is nothing to count
    have hempty : current.length < UInt32.size → current = [] := by
      intro hcurrent
      rw [← List.length_eq_zero_iff, ← h.toNat_samples hcurrent, hnone]
      rfl
    refine ⟨hnone, fun hall => ?_, fun hall => ?_⟩
    · obtain ⟨hclosed, hcurrent⟩ := hfits hall
      rw [h.total hclosed, hempty hcurrent]
    · obtain ⟨hclosed, hcurrent⟩ := hfits hall
      rw [hlast, hempty hcurrent]
      exact h.average hclosed
  · rename_i hsome
    have hne : current.isEmpty = false := by
      rw [List.isEmpty_eq_false_iff]
      rintro rfl
      exact hsome h.samples
    refine ⟨rfl, fun _ => rfl, fun hall => ?_⟩
    obtain ⟨hclosed, hcurrent⟩ := hfits hall
    rw [hlast, hne, mean, ← h.total hclosed, ← h.toNat_samples hcurrent]
    rfl

end Collects

/-- Nothing added to the first stretch leaves the stretches as they are. -/
theorem modifyHead_nil_append (stretches : List (List Float)) :
    stretches.modifyHead ([] ++ ·) = stretches := by
  cases stretches <;> rfl

/-- What a measurement has collected after several events is what it had before, with the stretches of
their answers behind: the first of these goes on with what was current. -/
theorem collects_run {closed : List (List Float)} {current : List Float} (h : l.Collects closed current)
    (events : List Event) :
    ∃ closed' current',
      closed ++ (stretches (l.answers events)).modifyHead (current ++ ·) = closed' ++ [current'] ∧
        (l.run events).Collects closed' current' := by
  induction events generalizing l closed current with
  | nil => exact ⟨closed, current, by simp [answers, stretches], h⟩
  | cons e events ih =>
    cases e with
    | start now =>
      have hstart : (l.start now).Collects closed current := ⟨h.samples, h.total, h.average⟩
      obtain ⟨closed', current', hsplit, hrun⟩ := ih hstart
      refine ⟨closed', current', ?_, hrun⟩
      rw [← hsplit, answers, stretches_cons_of_not_folded rfl, List.modifyHead_modifyHead]
      rfl
    | finish now =>
      obtain ⟨closed', current', hsplit, hrun⟩ := ih (h.finish now)
      refine ⟨closed', current', ?_, hrun⟩
      rw [← hsplit, answers, stretches_cons_of_not_folded rfl, List.modifyHead_modifyHead]
      congr 2
      funext samples
      exact (List.append_assoc _ _ _).symm
    | fold =>
      obtain ⟨closed', current', hsplit, hrun⟩ := ih h.fold
      refine ⟨closed', current', ?_, hrun⟩
      rw [← hsplit, answers, respond, stretches_folded_cons, List.modifyHead_cons, List.append_nil,
        List.append_assoc, modifyHead_nil_append]
      rfl

/-- After several events from the beginning on, all their samples have been collected. -/
theorem exists_collects (past : List Event) :
    ∃ closed current, stretches (empty.answers past) = closed ++ [current] ∧
      (empty.run past).Collects closed current := by
  obtain ⟨closed, current, hsplit, hcollects⟩ := collects_run collects_empty past
  rw [List.nil_append, modifyHead_nil_append] at hsplit
  exact ⟨closed, current, hsplit, hcollects⟩

/-! ## Every sequence of events -/

/-- A fold reports the mean of the last stretch with a sample. -/
theorem average_fold (hcountable : Countable (stretches (empty.answers past))) :
    (empty.run past).fold.2.average = lastMean (stretches (empty.answers past)) := by
  obtain ⟨closed, current, hsplit, hcollects⟩ := exists_collects past
  rw [hsplit] at hcountable ⊢
  exact hcollects.fold.average hcountable

/-- A fold without samples since the one before reports no change. -/
theorem fold_of_getLast?_eq_nil (h : (stretches (empty.answers past)).getLast? = some []) :
    (empty.run past).fold.1 = false := by
  obtain ⟨closed, current, hsplit, hcollects⟩ := exists_collects past
  rw [hsplit, List.getLast?_concat] at h
  obtain rfl := Option.some.inj h
  have hnone : (empty.run past).samples = 0 := hcollects.samples
  rw [fold, if_pos hnone]

/-- After any events on a new measurement: a completion gives a sample exactly if a probe has been started
and none completed since; the sample is the time in milliseconds since the latest such start, and zero if
the clock has gone back; a fold leaves the probe in flight as it is; what is reported after the fold is
the mean of the samples in the last stretch between folds that has any, and nothing if there has been no
sample, as long as a word of 32 bits can count the samples of each stretch; and without a sample since the
fold before it a fold reports no change. -/
theorem measured_run (past : List Event) :
    (∀ now, ((empty.run past).finish now).1.isSome = true ↔
      ∃ before started after, past = before ++ .start started :: after ∧
        ∀ later, .finish later ∉ after) ∧
    (∀ before started after now, past = before ++ .start started :: after →
      (∀ later, .start later ∉ after ∧ .finish later ∉ after) →
      ((empty.run past).finish now).1 = some (seconds (now - started) * 1000) ∧
        (now ≤ started → ((empty.run past).finish now).1 = some 0)) ∧
    ((empty.run (past ++ [.fold])).isPending = (empty.run past).isPending ∧
      ∀ now, ((empty.run (past ++ [.fold])).finish now).1 = ((empty.run past).finish now).1) ∧
    (Countable (stretches (empty.answers past)) →
      (empty.run (past ++ [.fold])).average = lastMean (stretches (empty.answers past))) ∧
    ((stretches (empty.answers past)).getLast? = some [] → (empty.run past).fold.1 = false) := by
  have hfold : (empty.run (past ++ [.fold])).pending = (empty.run past).pending := by
    rw [run_append]
    exact pending_fold _
  refine ⟨fun now => ?_, ?_, ⟨?_, fun now => ?_⟩, fun hcountable => ?_, fold_of_getLast?_eq_nil⟩
  · rw [finish_fst, Option.isSome_map]
    constructor
    · exact exists_start_of_isSome_pending
    · rintro ⟨before, started, after, rfl, hafter⟩
      rw [run_append]
      exact isSome_pending_run (l := (empty.run before).start started) rfl hafter
  · rintro before started after now rfl hafter
    have hpending : (empty.run (before ++ .start started :: after)).pending = some started := by
      rw [run_append]
      exact pending_run (l := (empty.run before).start started) hafter
    rw [finish_fst, hpending, Option.map_some]
    refine ⟨rfl, fun hback => ?_⟩
    have hzero : seconds 0 * 1000 = 0 := by decide +kernel
    rw [Nat.sub_eq_zero_of_le hback, hzero]
  · rw [isPending, hfold, isPending]
  · rw [finish_fst, hfold, finish_fst]
  · rw [run_append]
    exact average_fold hcountable

/-- A probe that is started twice and completed twice, and one that is in flight over a fold. -/
def interleaved : List Event :=
  [.start 0, .start 1000000, .fold, .finish 11000000, .finish 12000000, .fold, .fold, .start 30000000,
    .fold]

/-- Of the first probe only the later start counts, and only its first completion gives a sample. The
second probe can still be completed, and until then folds report the sample of the first. -/
theorem measured_run_interleaved :
    empty.answers interleaved =
        [.started, .started, .folded false, .finished (some 10), .finished none, .folded true,
          .folded false, .started, .folded false] ∧
      ((empty.run interleaved).finish 50000000).1 = some (seconds 20000000 * 1000) ∧
      ((empty.run interleaved).finish 20000000).1 = some 0 ∧
      stretches (empty.answers interleaved) = [[], [10], [], [], []] ∧
      (empty.run (interleaved ++ [.fold])).average = some 10 ∧
      (empty.run interleaved).fold.1 = false := by
  obtain ⟨-, hfinish, -, haverage, hsame⟩ := measured_run interleaved
  have hstretches : stretches (empty.answers interleaved) = [[], [10], [], [], []] := by
    decide +kernel
  have hlater : ∀ later, Event.start later ∉ [Event.fold] ∧ Event.finish later ∉ [Event.fold] := by
    simp
  have hsample := hfinish (interleaved.take 7) 30000000 [.fold] 50000000 rfl hlater
  have hback := hfinish (interleaved.take 7) 30000000 [.fold] 20000000 rfl hlater
  rw [hstretches] at haverage hsame
  have hcountable : Countable [[], [10], [], [], []] := by simp [Countable, UInt32.size]
  refine ⟨by decide +kernel, hsample.1, hback.2 (by decide), hstretches, ?_, hsame rfl⟩
  rw [haverage hcountable]
  decide +kernel

end Latency

end BrokerTopology
