import BrokerTopology.Proofs.Graph.Documents
import Mathlib.Algebra.GroupWithZero.Nat
import Mathlib.Data.List.Chain
/-!
# When a sampler samples

A sampler is ticked at instants that may come in any order. Between two ticks the topology may change, so
a tick is given with the topology that it finds; nothing that the sampler does depends on that. The ticks
that sample are one interval or more apart, each sample is over the time since the one before, and all
other ticks leave everything as it is.

Main statement: `paced_run`.
-/

namespace BrokerTopology

/-! ## Gaps -/

/-- The times from an instant to the first of a list, and from each of the list to the next. -/
def gaps (start : Nat) (instants : List Nat) : List Nat :=
  List.zipWith (fun a b => b - a) (start :: instants) instants

theorem gaps_cons (start now : Nat) (instants : List Nat) :
    gaps start (now :: instants) = (now - start) :: gaps now instants :=
  rfl

/-- If no instant is before the one that it follows, the gaps add up to the time from the first to the
last. -/
theorem add_sum_gaps {start : Nat} {instants : List Nat} (h : (start :: instants).IsChain (· ≤ ·)) :
    start + (gaps start instants).sum = (start :: instants).getLast (List.cons_ne_nil _ _) := by
  induction instants generalizing start with
  | nil => rfl
  | cons now instants ih =>
    obtain ⟨hnow, hrest⟩ := List.isChain_cons_cons.mp h
    rw [gaps_cons, List.sum_cons, List.getLast_cons_cons, ← ih hrest]
    omega

namespace Sampler

/-! ## One tick -/

/-- A tick: its instant and the topology that it finds. -/
structure Tick where
  now : Nat
  found : Topology

/-- What a tick answers: a report if it samples, the sampler and the topology after it. -/
def answer (p : Sampler) (t : Tick) : Option Topology.SampleReport × Sampler × Topology :=
  p.tick t.now t.found

/-- Whether a tick samples. -/
def samplesAt (p : Sampler) (t : Tick) : Bool :=
  (p.answer t).1.isSome

/-- The answer of a tick that samples over a time in nanoseconds. -/
def sampled (p : Sampler) (t : Tick) (elapsed : Nat) :
    Option Topology.SampleReport × Sampler × Topology :=
  (some (t.found.sample (seconds elapsed)).1, ⟨p.interval, t.now⟩, (t.found.sample (seconds elapsed)).2)

variable {p : Sampler} {t : Tick} {ticks : List Tick}

/-- One interval or more after the last sample the next one is due, over the time since then. -/
theorem due?_of_due (hinterval : 0 < p.interval) {now : Nat} (hdue : p.last + p.interval ≤ now) :
    p.due? now = some (now - p.last) := by
  rw [due?, isEnabled, bne_iff_ne.mpr (Nat.ne_of_gt hinterval), Bool.true_and,
    if_pos (decide_eq_true (by omega))]

/-- A tick at which a sample is due samples. -/
theorem answer_of_due (hinterval : 0 < p.interval) (hdue : p.last + p.interval ≤ t.now) :
    p.answer t = p.sampled t (t.now - p.last) := by
  rw [answer, tick, due?_of_due hinterval hdue]
  rfl

/-- Any earlier tick does nothing. -/
theorem answer_of_not_due (hinterval : 0 < p.interval) (hdue : ¬ p.last + p.interval ≤ t.now) :
    p.answer t = (none, p, t.found) := by
  have hnone : p.due? t.now = none := by
    rw [due?, decide_eq_false (by omega), Bool.and_false]
    rfl
  rw [answer, tick, hnone]

/-- Without an interval a tick does nothing. -/
theorem answer_of_disabled (hinterval : p.interval = 0) : p.answer t = (none, p, t.found) := by
  obtain ⟨interval, last⟩ := p
  obtain rfl : interval = 0 := hinterval
  exact tick_of_interval_eq_zero last t.now t.found

/-- A tick samples exactly if one interval or more has passed. -/
theorem samplesAt_iff (hinterval : 0 < p.interval) :
    p.samplesAt t = true ↔ p.last + p.interval ≤ t.now := by
  rw [samplesAt]
  by_cases hdue : p.last + p.interval ≤ t.now
  · rw [answer_of_due hinterval hdue]
    exact iff_of_true rfl hdue
  · rw [answer_of_not_due hinterval hdue]
    exact iff_of_false Bool.false_ne_true hdue

/-- A tick that does not sample changes neither the sampler nor the topology. -/
theorem answer_of_not_samplesAt (h : p.samplesAt t = false) : p.answer t = (none, p, t.found) := by
  rcases Nat.eq_zero_or_pos p.interval with hinterval | hinterval
  · exact answer_of_disabled hinterval
  · refine answer_of_not_due hinterval fun hdue => ?_
    rw [(samplesAt_iff hinterval).mpr hdue] at h
    cases h

/-! ## Several ticks -/

/-- The ticks of a sequence, each with the sampler that it meets. -/
def met (p : Sampler) : List Tick → List (Sampler × Tick)
  | [] => []
  | t :: ts => (p, t) :: met (p.answer t).2.1 ts

/-- Those that sample. -/
def samples (p : Sampler) (ticks : List Tick) : List (Sampler × Tick) :=
  (p.met ticks).filter fun m => m.1.samplesAt m.2

/-- The instants of those that sample. -/
def instants (p : Sampler) (ticks : List Tick) : List Nat :=
  (p.samples ticks).map fun m => m.2.now

/-- After a tick that samples the next one counts from its instant. -/
theorem samples_cons_of_due (hinterval : 0 < p.interval) (hdue : p.last + p.interval ≤ t.now)
    (ticks : List Tick) : p.samples (t :: ticks) = (p, t) :: samples ⟨p.interval, t.now⟩ ticks := by
  rw [samples, met, List.filter_cons, if_pos ((samplesAt_iff hinterval).mpr hdue),
    answer_of_due hinterval hdue]
  rfl

/-- After any other tick nothing has changed. -/
theorem samples_cons_of_not_samplesAt (h : p.samplesAt t = false) (ticks : List Tick) :
    p.samples (t :: ticks) = p.samples ticks := by
  rw [samples, met, List.filter_cons, if_neg (Bool.eq_false_iff.mp h), answer_of_not_samplesAt h]
  rfl

/-- The interval stays. -/
theorem interval_of_mem_met {m : Sampler × Tick} (h : m ∈ p.met ticks) : m.1.interval = p.interval := by
  induction ticks generalizing p with
  | nil => cases h
  | cons t ticks ih =>
    rcases List.mem_cons.mp h with rfl | h
    · rfl
    · rw [ih h]
      cases hsamples : p.samplesAt t with
      | false => rw [answer_of_not_samplesAt hsamples]
      | true =>
        rcases Nat.eq_zero_or_pos p.interval with hinterval | hinterval
        · rw [answer_of_disabled hinterval]
        · rw [answer_of_due hinterval ((samplesAt_iff hinterval).mp hsamples)]
          rfl

/-- Without an interval every tick meets the same sampler. -/
theorem eq_of_mem_met (hinterval : p.interval = 0) {m : Sampler × Tick} (h : m ∈ p.met ticks) :
    m.1 = p := by
  induction ticks with
  | nil => cases h
  | cons t ticks ih =>
    rw [met, answer_of_disabled hinterval] at h
    rcases List.mem_cons.mp h with rfl | h
    · rfl
    · exact ih h

/-- The samples of a sequence of ticks, as they should be. -/
structure Paced (p : Sampler) (ticks : List Tick) : Prop where
  /-- The instants of the samples are one interval or more apart, the first one from the start. -/
  spaced : (p.last :: p.instants ticks).IsChain fun a b => a + p.interval ≤ b
  /-- The times that are handed to the topology are the gaps between them, and the last sample is then at
  the instant of the tick. -/
  handed : List.Forall₂ (fun m gap => m.1.answer m.2 = p.sampled m.2 gap) (p.samples ticks)
    (gaps p.last (p.instants ticks))

variable (hinterval : 0 < p.interval)
include hinterval

/-- A tick that samples, before others. -/
theorem Paced.cons_of_due (hdue : p.last + p.interval ≤ t.now)
    (h : Paced ⟨p.interval, t.now⟩ ticks) : Paced p (t :: ticks) := by
  have hsamples := samples_cons_of_due hinterval hdue ticks
  have hinstants : p.instants (t :: ticks) = t.now :: instants ⟨p.interval, t.now⟩ ticks := by
    rw [instants, hsamples]
    rfl
  constructor
  · rw [hinstants]
    exact List.isChain_cons_cons.mpr ⟨hdue, h.spaced⟩
  · rw [hinstants, hsamples, gaps_cons]
    exact List.Forall₂.cons (answer_of_due hinterval hdue) h.handed

omit hinterval in
/-- A tick that does not sample, before others. -/
theorem Paced.cons_of_not_samplesAt (hsamples : p.samplesAt t = false) (h : Paced p ticks) :
    Paced p (t :: ticks) := by
  have heq := samples_cons_of_not_samplesAt hsamples ticks
  have hinstants : p.instants (t :: ticks) = p.instants ticks := by
    rw [instants, heq]
    rfl
  constructor
  · rw [hinstants]
    exact h.spaced
  · rw [hinstants, heq]
    exact h.handed

/-- Every sequence of ticks is paced. The induction is on the ticks; the sampler that meets the rest of
them has the same interval. -/
theorem paced (ticks : List Tick) : Paced p ticks := by
  induction ticks generalizing p with
  | nil => exact ⟨List.isChain_singleton p.last, List.Forall₂.nil⟩
  | cons t ticks ih =>
    by_cases hdue : p.last + p.interval ≤ t.now
    · exact Paced.cons_of_due hinterval hdue (ih hinterval)
    · have hsamples : p.samplesAt t = false := by
        rw [Bool.eq_false_iff, ne_eq, samplesAt_iff hinterval]
        exact hdue
      exact (ih hinterval).cons_of_not_samplesAt hsamples

/-- Ticks that are one interval or more apart all sample. -/
theorem instants_of_spaced
    (hspaced : (p.last :: ticks.map Tick.now).IsChain fun a b => a + p.interval ≤ b) :
    p.instants ticks = ticks.map Tick.now := by
  induction ticks generalizing p with
  | nil => rfl
  | cons t ticks ih =>
    obtain ⟨hdue, hrest⟩ := List.isChain_cons_cons.mp hspaced
    have hinstants := ih (p := ⟨p.interval, t.now⟩) hinterval hrest
    rw [instants, samples_cons_of_due hinterval hdue, List.map_cons, List.map_cons, ← hinstants]
    rfl

omit hinterval

end Sampler

/-! ## The ticks of a monitor -/

namespace Monitor

/-- The instants of the ticks among some events. -/
def tickInstants (events : List Event) : List Nat :=
  events.filterMap fun e =>
    match e with
    | .tick now _ => some now
    | _ => none

variable {m : Monitor} {e : Event}

theorem tickInstants_cons_of_not_tick (he : ∀ now reading, e ≠ .tick now reading) (events : List Event) :
    tickInstants (e :: events) = tickInstants events := by
  cases e with
  | tick now reading => exact absurd rfl (he now reading)
  | _ => rfl

/-- Only ticks are the business of the sampler. -/
theorem sampler_step_of_not_tick (he : ∀ now reading, e ≠ .tick now reading) :
    (m.step e).sampler = m.sampler := by
  cases e with
  | publish id address topic retain bytes =>
    rw [step, publish]
    split
    · rfl
    · rfl
  | tick now reading => exact absurd rfl (he now reading)
  | _ => rfl

/-- A tick at which a sample is due is the last to sample. -/
theorem sampler_step_of_due (hinterval : 0 < m.sampler.interval) {now : Nat}
    (hdue : m.sampler.last + m.sampler.interval ≤ now) (reading : Memory.Usage) :
    (m.step (.tick now reading)).sampler = ⟨m.sampler.interval, now⟩ := by
  rw [step, tick, Sampler.tick, Sampler.due?_of_due hinterval hdue]

/-- If the ticks of a monitor are one interval or more apart, all of them sample, whatever it is told
between them. The induction is on the events; the last sample moves on with every tick. -/
theorem samplesAt_of_spaced (hinterval : 0 < m.sampler.interval) {events : List Event}
    (hspaced : (m.sampler.last :: tickInstants events).IsChain fun a b => a + m.sampler.interval ≤ b)
    {before after : List Event} {now : Nat} {reading : Memory.Usage}
    (hevents : events = before ++ .tick now reading :: after) :
    (m.run before).samplesAt (.tick now reading) = true := by
  subst hevents
  induction before generalizing m with
  | nil =>
    obtain ⟨hdue, -⟩ := List.isChain_cons_cons.mp hspaced
    rw [run, List.foldl_nil, samplesAt, Sampler.due?_of_due hinterval hdue]
    rfl
  | cons e before ih =>
    rw [run, List.foldl_cons, ← run]
    by_cases htick : ∃ earlier reading', e = .tick earlier reading'
    · obtain ⟨earlier, reading', rfl⟩ := htick
      obtain ⟨hdue, hrest⟩ := List.isChain_cons_cons.mp hspaced
      have hsampler := sampler_step_of_due hinterval hdue reading'
      refine ih ?_ ?_
      · rw [hsampler]
        exact hinterval
      · rw [hsampler]
        exact hrest
    · have hother : ∀ earlier reading', e ≠ .tick earlier reading' :=
        fun earlier reading' heq => htick ⟨earlier, reading', heq⟩
      have hsampler := sampler_step_of_not_tick (m := m) hother
      rw [List.cons_append, tickInstants_cons_of_not_tick hother, ← hsampler] at hspaced
      exact ih (hsampler ▸ hinterval) hspaced

end Monitor

namespace Sampler

/-- For every sampler and every sequence of ticks. With an interval that is positive, the instants of the
samples increase and are one interval or more apart, the first one from the start; the times that are
handed to the topology are the gaps between them, which add up to the time from the start to the last
sample; a tick samples exactly if one interval or more has passed since the last sample, and otherwise
changes neither the sampler nor the topology; and if the ticks are one interval or more apart from the
start on, all of them sample, also those of a monitor that is told other things between them. With an
interval of zero no tick samples or changes anything. -/
theorem paced_run (p : Sampler) (ticks : List Tick) :
    (0 < p.interval →
      (p.last :: p.instants ticks).Pairwise (· < ·) ∧
      (p.last :: p.instants ticks).IsChain (fun a b => a + p.interval ≤ b) ∧
      List.Forall₂ (fun m gap => m.1.answer m.2 = p.sampled m.2 gap) (p.samples ticks)
        (gaps p.last (p.instants ticks)) ∧
      p.last + (gaps p.last (p.instants ticks)).sum =
        (p.last :: p.instants ticks).getLast (List.cons_ne_nil _ _) ∧
      (∀ m ∈ p.met ticks,
        (m.1.samplesAt m.2 = true ↔ m.1.last + p.interval ≤ m.2.now) ∧
        (m.1.samplesAt m.2 = false → m.1.answer m.2 = (none, m.1, m.2.found))) ∧
      ((p.last :: ticks.map Tick.now).IsChain (fun a b => a + p.interval ≤ b) →
        p.instants ticks = ticks.map Tick.now) ∧
      ∀ (m : Monitor) (events : List Monitor.Event), m.sampler = p →
        (p.last :: Monitor.tickInstants events).IsChain (fun a b => a + p.interval ≤ b) →
        ∀ before now reading after, events = before ++ .tick now reading :: after →
          (m.run before).samplesAt (.tick now reading) = true) ∧
    (p.interval = 0 → ∀ m ∈ p.met ticks, m.1.answer m.2 = (none, p, m.2.found)) := by
  constructor
  · intro hinterval
    obtain ⟨hspaced, hhanded⟩ := paced hinterval ticks
    refine ⟨?_, hspaced, hhanded, ?_, ?_, instants_of_spaced hinterval, ?_⟩
    · exact List.isChain_iff_pairwise.mp (hspaced.imp fun _ _ hnext => by omega)
    · exact add_sum_gaps (hspaced.imp fun _ _ hnext => by omega)
    · intro m hm
      have hsame := interval_of_mem_met hm
      refine ⟨?_, answer_of_not_samplesAt⟩
      rw [samplesAt_iff (hsame.symm ▸ hinterval), hsame]
    · rintro m events rfl hchain before now reading after hevents
      exact Monitor.samplesAt_of_spaced hinterval hchain hevents
  · intro hinterval m hm
    obtain rfl := eq_of_mem_met hinterval hm
    exact answer_of_disabled hinterval

/-- Ticks at these instants, all of which find a topology with nothing in it. -/
def ticksAt (instants : List Nat) : List Tick :=
  instants.map fun now => ⟨now, .empty 2⟩

/-- A monitor that is told something between two ticks. -/
def visited : List Monitor.Event :=
  [.connect "c" "10.0.0.1" none, .tick 10000000000 ⟨1, 2⟩, .subscribe "c" "10.0.0.1" "a/#"]

/-- A sampler with an interval of ten that starts at five is ticked too early, twice at the same instant
and at earlier instants: it samples at fifteen over ten and at forty over twenty-five. Of ticks that are
ten or more apart it skips none, no more than a monitor does, and without an interval it skips all. -/
theorem paced_run_unordered :
    (0 < (⟨10, 5⟩ : Sampler).interval ∧
      instants ⟨10, 5⟩ (ticksAt [3, 14, 15, 15, 2, 24, 40, 7]) = [15, 40] ∧
      gaps 5 [15, 40] = [10, 25] ∧
      List.Forall₂ (fun m gap => m.1.answer m.2 = sampled ⟨10, 5⟩ m.2 gap)
        (samples ⟨10, 5⟩ (ticksAt [3, 14, 15, 15, 2, 24, 40, 7])) [10, 25]) ∧
    ((5 :: (ticksAt [15, 26, 36]).map Tick.now).IsChain (fun a b => a + 10 ≤ b) ∧
      instants ⟨10, 5⟩ (ticksAt [15, 26, 36]) = [15, 26, 36]) ∧
    ((0 :: Monitor.tickInstants (visited ++ [.tick 20000000001 ⟨1, 2⟩])).IsChain
        (fun a b => a + 10000000000 ≤ b) ∧
      ((Monitor.new {} 0).run visited).samplesAt (.tick 20000000001 ⟨1, 2⟩) = true) ∧
    ((⟨0, 5⟩ : Sampler).interval = 0 ∧
      ∀ m ∈ met ⟨0, 5⟩ (ticksAt [15, 26]), m.1.answer m.2 = (none, ⟨0, 5⟩, m.2.found)) := by
  have hinstants : instants ⟨10, 5⟩ (ticksAt [3, 14, 15, 15, 2, 24, 40, 7]) = [15, 40] := by
    decide +kernel
  have hspaced : (5 :: (ticksAt [15, 26, 36]).map Tick.now).IsChain (fun a b => a + 10 ≤ b) := by
    decide
  have hticks : (0 :: Monitor.tickInstants (visited ++ [.tick 20000000001 ⟨1, 2⟩])).IsChain
      (fun a b => a + 10000000000 ≤ b) := by
    decide
  obtain ⟨-, -, hhanded, -⟩ :=
    (paced_run ⟨10, 5⟩ (ticksAt [3, 14, 15, 15, 2, 24, 40, 7])).1 (by decide)
  obtain ⟨-, -, -, -, -, hall, -⟩ := (paced_run ⟨10, 5⟩ (ticksAt [15, 26, 36])).1 (by decide)
  obtain ⟨-, -, -, -, -, -, hmonitor⟩ := (paced_run ⟨10000000000, 0⟩ []).1 (by decide)
  rw [hinstants] at hhanded
  exact ⟨⟨by decide, hinstants, rfl, hhanded⟩, ⟨hspaced, hall hspaced⟩,
    ⟨hticks, hmonitor (.new {} 0) _ rfl hticks visited 20000000001 ⟨1, 2⟩ [] rfl⟩, rfl,
    (paced_run ⟨0, 5⟩ (ticksAt [15, 26])).2 rfl⟩

end Sampler

end BrokerTopology
