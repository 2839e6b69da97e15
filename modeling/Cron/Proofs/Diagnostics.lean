import Cron.Proofs.Zoned

/-!
# What the journal of a search tells

A search for the next run in a time zone leaves records of two levels.  Those for
tracing name minutes that the search left out, each with the field that refused
it.  The others name the minutes that it found and passed over, because the clock
does not show them after the start, and at the very end what came of it.

Both kinds can be taken at their word.  The minutes passed over are all there are
up to the run that was found, or up to the limit, each once and in ascending
order.  The traced minutes ascend through the whole call, although the search
begins anew behind every minute it passed over: a search only leaves out minutes
before the one it finds, and the next one begins there.

Nor is a trace missing.  Each stands for a jump over the minutes that a field other
than that of the minute refuses.  The jumps do not overlap, and together they cover
every minute that such a field is the first to refuse.  There is one list of jumps
only of which this is true (`Steps.unique`).

The induction follows the loops.  `Steps` says what one search adds, `Report` what
all searches from a minute on add together, and a report is put together from the
steps up to the next minute passed over and the report from there on.

## Main results

* `sweep_steps` — what a single search adds to the journal.
* `seek_report` — what the searches from a minute on add to it.
* `nextWithin_traces_iff` — the traces of the search for the next run are its jumps.
* `nextWithin_tells_truth` — the journal of the search for the next run, by points
  in time and with the messages.
-/

namespace Cron

open Calendar

namespace Schedule

/-! ## The steps of one search -/

/-- The jumps of a search from `lo` on and before `hi`, each with the minute it leaves
and the first field that refuses it.  Steps over a single minute do not count.  The
jumps do not overlap, and every minute that another field than that of the minute
refuses first lies in one of them. -/
structure Steps (s : Schedule) (lo hi : Int) (steps : List (Int × Field)) : Prop where
  apart : steps.Pairwise fun a b => a.2.skip a.1 ≤ b.1
  within : ∀ a ∈ steps, lo ≤ a.1 ∧ a.1 < hi
  refused : ∀ a ∈ steps, s.mismatch? a.1 = some a.2 ∧ a.2 ≠ .minute
  covered : ∀ m f, lo ≤ m → m < hi → s.mismatch? m = some f → f ≠ .minute →
    ∃ a ∈ steps, a.1 ≤ m ∧ m < a.2.skip a.1

namespace Steps

variable {s : Schedule} {lo mid hi : Int} {steps more : List (Int × Field)}

theorem nil (h : ∀ m f, lo ≤ m → m < hi → s.mismatch? m = some f → f = .minute) :
    s.Steps lo hi [] where
  apart := List.Pairwise.nil
  within _ hMem := absurd hMem List.not_mem_nil
  refused _ hMem := absurd hMem List.not_mem_nil
  covered m f hLo hHi hRefused hCoarse := absurd (h m f hLo hHi hRefused) hCoarse

theorem nil_of_le (h : hi ≤ lo) : s.Steps lo hi [] := by
  refine nil fun m f hLo hHi => ?_
  omega

theorem singleton {m : Int} {f : Field} (h : s.mismatch? m = some f) (hCoarse : f ≠ .minute)
    (hBefore : m < hi) (hJump : hi ≤ f.skip m) : s.Steps m hi [(m, f)] where
  apart := List.pairwise_singleton _ _
  within a ha := by
    rw [List.mem_singleton.1 ha]
    exact ⟨Int.le_refl m, hBefore⟩
  refused a ha := by
    rw [List.mem_singleton.1 ha]
    exact ⟨h, hCoarse⟩
  covered n g hLo hHi _ _ :=
    ⟨(m, f), List.mem_singleton_self _, hLo, Int.lt_of_lt_of_le hHi hJump⟩

/-- Later jumps go behind earlier ones that lead up to where the later ones begin. -/
theorem append (h : s.Steps lo mid steps) (hMore : s.Steps mid hi more) (hLo : lo ≤ mid)
    (hJumps : ∀ a ∈ steps, a.1 < hi ∧ a.2.skip a.1 ≤ mid) : s.Steps lo hi (steps ++ more) where
  apart := by
    refine List.pairwise_append.2 ⟨h.apart, hMore.apart, fun a ha b hb => ?_⟩
    exact Int.le_trans (hJumps a ha).2 (hMore.within b hb).1
  within a ha := by
    rcases List.mem_append.1 ha with ha | ha
    · exact ⟨(h.within a ha).1, (hJumps a ha).1⟩
    · exact ⟨Int.le_trans hLo (hMore.within a ha).1, (hMore.within a ha).2⟩
  refused a ha := by
    rcases List.mem_append.1 ha with ha | ha
    · exact h.refused a ha
    · exact hMore.refused a ha
  covered m f hFrom hTo hRefused hCoarse := by
    by_cases hBelow : m < mid
    · obtain ⟨a, ha, hIn⟩ := h.covered m f hFrom hBelow hRefused hCoarse
      exact ⟨a, List.mem_append_left more ha, hIn⟩
    · obtain ⟨a, ha, hIn⟩ := hMore.covered m f (Int.not_lt.1 hBelow) hTo hRefused hCoarse
      exact ⟨a, List.mem_append_right steps ha, hIn⟩

theorem ascending (h : s.Steps lo hi steps) : steps.Pairwise fun a b => a.1 < b.1 :=
  h.apart.imp fun {a _} hLe => Int.lt_of_lt_of_le (a.2.lt_skip a.1) hLe

/-- No jump passes over a minute at which the schedule runs. -/
theorem skip_le (h : s.Steps lo hi steps) {m : Int} (hRuns : s.runsAt m) (hHi : hi ≤ m)
    {a : Int × Field} (ha : a ∈ steps) : a.2.skip a.1 ≤ m := by
  by_contra hBeyond
  have hFrom : a.1 ≤ m := Int.le_trans (Int.le_of_lt (h.within a ha).2) hHi
  have hRefused := List.find?_some (h.refused a ha).1
  have hAccepted := (runsAt_iff s m).1 hRuns a.2
  rw [a.2.valueAt_eq_of_lt_skip hFrom (Int.not_le.1 hBeyond)] at hAccepted
  rw [hAccepted] at hRefused
  cases hRefused

/-- What comes behind the first jump. -/
theorem tail {a : Int × Field} (h : s.Steps lo hi (a :: steps)) :
    s.Steps (a.2.skip a.1) hi steps where
  apart := (List.pairwise_cons.1 h.apart).2
  within b hb :=
    ⟨(List.pairwise_cons.1 h.apart).1 b hb, (h.within b (List.mem_cons_of_mem a hb)).2⟩
  refused b hb := h.refused b (List.mem_cons_of_mem a hb)
  covered m f hFrom hTo hRefused hCoarse := by
    have hFirst := (h.within a List.mem_cons_self).1
    have hSkip := a.2.lt_skip a.1
    obtain ⟨b, hb, hIn⟩ := h.covered m f (by omega) hTo hRefused hCoarse
    rcases List.mem_cons.1 hb with rfl | hb
    · omega
    · exact ⟨b, hb, hIn⟩

/-- The first jump of one list leaves no later minute than that of another one. -/
theorem head_le {a b : Int × Field} (h : s.Steps lo hi (a :: steps))
    (h' : s.Steps lo hi (b :: more)) : a.1 ≤ b.1 := by
  obtain ⟨hFrom, hTo⟩ := h'.within b List.mem_cons_self
  obtain ⟨hRefused, hCoarse⟩ := h'.refused b List.mem_cons_self
  obtain ⟨c, hc, hLe, -⟩ := h.covered b.1 b.2 hFrom hTo hRefused hCoarse
  rcases List.mem_cons.1 hc with rfl | hc
  · exact hLe
  · have hLater := (List.pairwise_cons.1 h.ascending).1 c hc
    omega

/-- The jumps are determined by where they begin and end. -/
theorem unique (h : s.Steps lo hi steps) (h' : s.Steps lo hi more) : steps = more := by
  have hNone {a : Int × Field} {rest : List (Int × Field)} {lo : Int}
      (hEmpty : s.Steps lo hi []) (hSome : s.Steps lo hi (a :: rest)) : False := by
    obtain ⟨hFrom, hTo⟩ := hSome.within a List.mem_cons_self
    obtain ⟨hRefused, hCoarse⟩ := hSome.refused a List.mem_cons_self
    obtain ⟨b, hb, -⟩ := hEmpty.covered a.1 a.2 hFrom hTo hRefused hCoarse
    exact List.not_mem_nil hb
  induction steps generalizing lo more with
  | nil =>
      cases more with
      | nil => rfl
      | cons b more => exact (hNone h h').elim
  | cons a steps ih =>
      cases more with
      | nil => exact (hNone h' h).elim
      | cons b more =>
          have hMinute : a.1 = b.1 := Int.le_antisymm (h.head_le h') (h'.head_le h)
          have hField : some a.2 = some b.2 := by
            rw [← (h.refused a List.mem_cons_self).1, hMinute,
              (h'.refused b List.mem_cons_self).1]
          obtain rfl : a = b := Prod.ext hMinute (Option.some.inj hField)
          rw [ih h.tail h'.tail]

end Steps

/-- The records of steps. -/
def traces (steps : List (Int × Field)) : List Record :=
  steps.map fun a => .skipping a.1 a.2

theorem eq_of_traces_eq {steps more : List (Int × Field)} (h : traces steps = traces more) :
    steps = more := by
  refine (List.map_inj_right fun a b hRecord => ?_).1 h
  obtain ⟨hMinute, hField⟩ := Record.skipping.inj hRecord
  exact Prod.ext hMinute hField

/-- Leaving a candidate leaves one record of it, or none for a step of a minute. -/
theorem exists_steps_of_recordSkip {s : Schedule} {start m hi : Int} {f : Field}
    (hLeaving : s.leaving? start m = some f) (hBefore : m < hi) (hJump : hi ≤ f.skip m)
    (journal : Array Record) :
    ∃ steps, s.Steps m hi steps ∧ (∀ a ∈ steps, a = (m, f)) ∧
      (recordSkip journal m f).toList = journal.toList ++ traces steps := by
  rw [leaving?, Option.or_eq_some_iff] at hLeaving
  rw [recordSkip]
  by_cases hMinute : f = .minute
  · rw [if_pos hMinute]
    refine ⟨[], .nil fun n g hFrom hTo hRefused => ?_, fun _ hMem => absurd hMem List.not_mem_nil,
      (List.append_nil _).symm⟩
    -- A step of a minute passes over its candidate only.
    rw [hMinute, Field.skip] at hJump
    obtain rfl : n = m := by omega
    rcases hLeaving with hMismatch | ⟨hNone, -⟩
    · rw [hRefused, hMinute] at hMismatch
      exact Option.some.inj hMismatch
    · rw [hRefused] at hNone
      cases hNone
  · rw [if_neg hMinute]
    have hMismatch : s.mismatch? m = some f := by
      rcases hLeaving with hMismatch | ⟨-, hIsStart⟩
      · exact hMismatch
      · split at hIsStart
        · exact absurd (Option.some.inj hIsStart).symm hMinute
        · cases hIsStart
    exact ⟨[(m, f)], .singleton hMismatch hMinute hBefore hJump,
      fun _ hMem => List.mem_singleton.1 hMem, Array.toList_push⟩

theorem le_of_sweep {s : Schedule} {start last m found : Int} {journal : Array Record}
    (h : (s.sweep start last m journal).value = some found) : m ≤ found := by
  fun_induction sweep s start last m journal with
  | case1 m journal hLast hLeaving =>
      rw [Option.some.inj h]
  | case2 m journal hLast f hLeaving next hSkip ih =>
      have hNext := Field.skip?_eq_some hSkip
      have hLt := f.lt_skip m
      have hLe := ih h
      omega
  | case3 => cases h
  | case4 => cases h

/-- Where a search has come to: the minute it found, or else behind the last one. -/
def reached (last : Int) (found : Option Int) : Int := found.getD (last + 1)

theorem lt_reached {last m : Int} {found : Option Int} (hLast : m ≤ last)
    (hFound : ∀ n, found = some n → m < n) : m < reached last found := by
  cases found with
  | none => exact Int.lt_add_one_of_le hLast
  | some n => exact hFound n rfl

theorem sweep_steps (s : Schedule) {start last m : Int} (journal : Array Record)
    (hSpan : Minute.Spanned m) (hLastSpan : Minute.Spanned last) :
    ∃ steps, s.Steps m (reached last (s.sweep start last m journal).value) steps ∧
      (s.sweep start last m journal).journal.toList = journal.toList ++ traces steps := by
  fun_induction sweep s start last m journal with
  | case1 m journal hLast hLeaving =>
      exact ⟨[], .nil_of_le (Int.le_refl m), (List.append_nil _).symm⟩
  | case2 m journal hLast f hLeaving next hSkip ih =>
      have hNext := Field.skip?_eq_some hSkip
      have hLt : m < next := by
        rw [hNext]
        exact f.lt_skip m
      have hNextSpan : Minute.Spanned next := Field.spanned_of_skip?_eq_some hSkip
      obtain ⟨more, hMore, hJournal⟩ := ih hNextSpan
      have hReached : m < reached last (s.sweep start last next (recordSkip journal m f)).value :=
        lt_reached hLast fun n hFound => Int.lt_of_lt_of_le hLt (le_of_sweep hFound)
      obtain ⟨steps, hSteps, hOnly, hRecord⟩ :=
        exists_steps_of_recordSkip hLeaving hLt (Int.le_of_eq hNext) journal
      refine ⟨steps ++ more, hSteps.append hMore (Int.le_of_lt hLt) fun a ha => ?_, ?_⟩
      · rw [hOnly a ha]
        exact ⟨hReached, Int.le_of_eq hNext.symm⟩
      · rw [hJournal, hRecord, traces, traces, traces, List.map_append, List.append_assoc]
  | case3 m journal hLast f hLeaving hSkip =>
      have hBeyond := lt_skip_of_skip?_eq_none hSpan hLastSpan hSkip
      obtain ⟨steps, hSteps, -, hRecord⟩ :=
        exists_steps_of_recordSkip hLeaving (Int.lt_add_one_of_le hLast) hBeyond journal
      exact ⟨steps, hSteps, hRecord⟩
  | case4 m journal hPast =>
      exact ⟨[], .nil_of_le (by simp only [reached, Option.getD_none]; omega),
        (List.append_nil _).symm⟩

/-! ## The report of all searches -/

section

variable {z : Zone}

/-- The records of searches from behind the minute `lo` on, which have come to `hi`:
the steps, and every minute in between at which the schedule runs without the clock
showing it after the start. -/
structure Report (s : Schedule) (start : Instant z) (lo hi : Int) (records : List Record)
    (steps : List (Int × Field)) (hidden : List Int) : Prop where
  traced : (records.filter fun r => r.level = .trace) = traces steps
  passed : (records.filter fun r => r.level = .debug) =
    hidden.map fun m => .unmapped m start.wall
  steps : s.Steps lo hi steps
  ascending : hidden.Pairwise (· < ·)
  mem_iff : ∀ m, m ∈ hidden ↔ lo < m ∧ m < hi ∧ s.runsAt m ∧ showing? start m = none

theorem filter_trace_traces (steps : List (Int × Field)) :
    ((traces steps).filter fun r => r.level = .trace) = traces steps := by
  apply List.filter_eq_self.2
  intro r hr
  obtain ⟨a, -, rfl⟩ := List.mem_map.1 hr
  rfl

theorem filter_debug_traces (steps : List (Int × Field)) :
    ((traces steps).filter fun r => r.level = .debug) = [] := by
  apply List.filter_eq_nil_iff.2
  intro r hr
  obtain ⟨a, -, rfl⟩ := List.mem_map.1 hr
  exact Bool.false_ne_true

namespace Report

variable {s : Schedule} {start : Instant z} {lo mid hi : Int}

theorem of_steps {steps : List (Int × Field)} (h : s.Steps lo hi steps)
    (hNone : ∀ m, lo < m → m < hi → ¬ s.runsAt m) :
    s.Report start lo hi (traces steps) steps [] where
  traced := filter_trace_traces steps
  passed := filter_debug_traces steps
  steps := h
  ascending := List.Pairwise.nil
  mem_iff m := by
    refine iff_of_false List.not_mem_nil ?_
    intro ⟨hLo, hHi, hRuns, _⟩
    exact hNone m hLo hHi hRuns

/-- The report of later searches goes behind that of earlier ones, with the minute
passed over in between. -/
theorem append {records later : List Record} {steps more : List (Int × Field)}
    {hidden rest : List Int} (h : s.Report start lo mid records steps hidden)
    (hRest : s.Report start mid hi later more rest) (hLo : lo < mid) (hHi : mid < hi)
    (hRuns : s.runsAt mid) (hHidden : showing? start mid = none) :
    s.Report start lo hi (records ++ .unmapped mid start.wall :: later) (steps ++ more)
      (hidden ++ mid :: rest) where
  traced := by
    rw [List.filter_append, List.filter_cons_of_neg Bool.false_ne_true, h.traced, hRest.traced,
      traces, traces, traces, List.map_append]
  passed := by
    rw [List.filter_append, List.filter_cons_of_pos rfl, h.passed, hRest.passed,
      List.map_append, List.map_cons]
  steps := by
    refine h.steps.append hRest.steps (Int.le_of_lt hLo) fun a ha => ⟨?_, ?_⟩
    · exact Int.lt_trans (h.steps.within a ha).2 hHi
    · exact h.steps.skip_le hRuns (Int.le_refl mid) ha
  ascending := by
    refine List.pairwise_append.2 ⟨h.ascending, List.pairwise_cons.2 ⟨?_, hRest.ascending⟩, ?_⟩
    · intro m hm
      exact ((hRest.mem_iff m).1 hm).1
    · intro m hm n hn
      have hBefore := ((h.mem_iff m).1 hm).2.1
      rcases List.mem_cons.1 hn with rfl | hn
      · exact hBefore
      · exact Int.lt_trans hBefore ((hRest.mem_iff n).1 hn).1
  mem_iff m := by
    rw [List.mem_append, List.mem_cons, h.mem_iff, hRest.mem_iff]
    constructor
    · rintro (⟨hAfter, hBefore, hIs⟩ | rfl | ⟨hAfter, hBefore, hIs⟩)
      · exact ⟨hAfter, Int.lt_trans hBefore hHi, hIs⟩
      · exact ⟨hLo, hHi, hRuns, hHidden⟩
      · exact ⟨Int.lt_trans hLo hAfter, hBefore, hIs⟩
    · intro ⟨hAfter, hBefore, hIs⟩
      rcases Int.lt_trichotomy m mid with hLess | hEq | hMore
      · exact .inl ⟨hAfter, hLess, hIs⟩
      · exact .inr (.inl hEq)
      · exact .inr (.inr ⟨hMore, hBefore, hIs⟩)

variable {records : List Record} {steps : List (Int × Field)} {hidden : List Int}

/-! A record behind the report that is no trace. -/

theorem traced_concat (h : s.Report start lo hi records steps hidden) {last : Record}
    (hLast : last.level = .debug) :
    ((records ++ [last]).filter fun r => r.level = .trace) = traces steps := by
  rw [List.filter_append, h.traced]
  simp [hLast]

theorem passed_concat (h : s.Report start lo hi records steps hidden) {last : Record}
    (hLast : last.level = .debug) :
    ((records ++ [last]).filter fun r => r.level = .debug) =
      (hidden.map fun m => .unmapped m start.wall) ++ [last] := by
  rw [List.filter_append, h.passed]
  simp [hLast]

end Report

/-- A single search passes over no minute at which the schedule runs. -/
theorem search_report (s : Schedule) (start : Instant z) {last m : Int} (journal : Array Record)
    (hSpan : Minute.Spanned m) (hLastSpan : Minute.Spanned last) :
    ∃ steps,
      s.Report start m (reached last (s.search m last journal).value) (traces steps) steps [] ∧
      (s.search m last journal).journal.toList = journal.toList ++ traces steps := by
  obtain ⟨steps, hSteps, hJournal⟩ := s.sweep_steps journal hSpan hLastSpan
  refine ⟨steps, .of_steps hSteps fun n hAfter hBefore hRuns => ?_, hJournal⟩
  have hFirst := s.search_isFirst journal hSpan hLastSpan
  cases hValue : (s.search m last journal).value with
  | none =>
      rw [hValue] at hFirst hBefore
      have hMem : n ∈ s.runsWithin m last := ⟨hAfter, Int.lt_add_one_iff.1 hBefore, hRuns⟩
      rw [show s.runsWithin m last = ∅ from hFirst] at hMem
      exact hMem.elim
  | some found =>
      rw [hValue] at hFirst hBefore
      have hBefore' : n < found := hBefore
      have hUpTo : found ≤ last := hFirst.1.2.1
      have hLeast : found ≤ n := hFirst.2 ⟨hAfter, by omega, hRuns⟩
      omega

/-- The minute that the clock shows at a run that was found. -/
def minuteFound (result : Except Error (Instant z)) : Option Int :=
  result.toOption.map fun i => i.wall.minute

theorem lt_of_seek {s : Schedule} {start : Instant z} {horizon : Duration} {last m n : Int}
    {journal : Array Record}
    (h : minuteFound (s.seek start horizon last m journal).value = some n) :
    m < n ∧ n ≤ last := by
  fun_induction seek s start horizon last m journal with
  | case1 m journal journal' hSearch => cases h
  | case2 m journal found journal' hSearch i hShown =>
      have hMinute : i.wall.minute = n := Option.some.inj h
      rw [← hMinute, (shows_of_showing? hShown).2]
      exact lt_of_search (congrArg Journaled.value hSearch)
  | case3 m journal found journal' hSearch hHidden ih =>
      have hAfter := (lt_of_search (congrArg Journaled.value hSearch)).1
      exact ⟨Int.lt_trans hAfter (ih h).1, (ih h).2⟩

/-- The record of what came of a search. -/
def outcome (s : Schedule) (start : Instant z) (horizon : Duration) :
    Except Error (Instant z) → Record
  | .ok i => .found s start.wall i.wall.minute
  | .error _ => .exhausted s start.wall horizon

theorem level_outcome (s : Schedule) (start : Instant z) (horizon : Duration)
    (result : Except Error (Instant z)) : (s.outcome start horizon result).level = .debug := by
  cases result <;> rfl

theorem seek_report (s : Schedule) (start : Instant z) (horizon : Duration) {last m : Int}
    (journal : Array Record) (hSpan : Minute.Spanned m) (hLastSpan : Minute.Spanned last) :
    ∃ records steps hidden,
      s.Report start m (reached last (minuteFound (s.seek start horizon last m journal).value))
        records steps hidden ∧
      (s.seek start horizon last m journal).journal.toList = journal.toList ++ records ++
        [s.outcome start horizon (s.seek start horizon last m journal).value] := by
  fun_induction seek s start horizon last m journal with
  | case1 m journal journal' hSearch =>
      obtain ⟨steps, hReport, hJournal⟩ := s.search_report start journal hSpan hLastSpan
      rw [hSearch] at hReport hJournal
      refine ⟨traces steps, steps, [], hReport, ?_⟩
      rw [← hJournal]
      exact Array.toList_push
  | case2 m journal found journal' hSearch i hShown =>
      obtain ⟨steps, hReport, hJournal⟩ := s.search_report start journal hSpan hLastSpan
      rw [hSearch] at hReport hJournal
      have hMinute := (shows_of_showing? hShown).2
      refine ⟨traces steps, steps, [], ?_, ?_⟩
      · rw [← hMinute] at hReport
        exact hReport
      · rw [← hJournal, outcome, hMinute]
        exact Array.toList_push
  | case3 m journal found journal' hSearch hHidden ih =>
      obtain ⟨steps, hReport, hJournal⟩ := s.search_report start journal hSpan hLastSpan
      have hFound := congrArg Journaled.value hSearch
      obtain ⟨hAfter, hUpTo⟩ := lt_of_search hFound
      rw [hSearch] at hReport hJournal
      obtain ⟨records, more, hidden, hRest, hLater⟩ :=
        ih (hSpan.of_le_of_le hLastSpan (Int.le_of_lt hAfter) hUpTo)
      refine ⟨traces steps ++ .unmapped found start.wall :: records, steps ++ more,
        [] ++ found :: hidden, ?_, ?_⟩
      · refine hReport.append hRest hAfter ?_ (runsAt_of_search hFound) hHidden
        exact lt_reached hUpTo fun n hn => (lt_of_seek hn).1
      · rw [hLater, Array.toList_push, show journal'.toList = _ from hJournal]
        simp only [List.append_assoc, List.cons_append, List.nil_append]

theorem reached_le {last : Int} {found : Option Int} (h : ∀ n, found = some n → n ≤ last) :
    reached last found ≤ last + 1 := by
  cases found with
  | none => exact Int.le_refl _
  | some n => exact Int.le_trans (h n rfl) (Int.le_of_lt (Int.lt_succ last))

/-- The report of all searches, when these begin at the minute of the start. -/
theorem nextWithin_report (s : Schedule) {start : Instant z} {horizon : Duration}
    {limit : DateTime} (h : start.wall.add? horizon = some limit) :
    ∃ records steps hidden,
      s.Report start start.wall.minute
        (reached limit.minute (minuteFound (s.nextWithin start horizon).value))
        records steps hidden ∧
      (s.nextWithin start horizon).journal.toList =
        records ++ [s.outcome start horizon (s.nextWithin start horizon).value] ∧
      reached limit.minute (minuteFound (s.nextWithin start horizon).value) ≤
        limit.minute + 1 := by
  obtain ⟨records, steps, hidden, hReport, hJournal⟩ :=
    s.seek_report start horizon #[] start.wall.spanned_minute limit.spanned_minute
  rw [nextWithin, h]
  exact ⟨records, steps, hidden, hReport, hJournal, reached_le fun n hn => (lt_of_seek hn).2⟩

/-- The jumps of the search are what it traces, if it can begin. -/
theorem nextWithin_traces_iff (s : Schedule) {start : Instant z} {horizon : Duration}
    {limit : DateTime} (h : start.wall.add? horizon = some limit)
    (steps : List (Int × Field)) :
    ((s.nextWithin start horizon).journal.toList.filter fun r => r.level = .trace) =
        traces steps ↔
      s.Steps start.wall.minute
        (reached limit.minute (minuteFound (s.nextWithin start horizon).value)) steps := by
  obtain ⟨records, jumps, hidden, hReport, hJournal, -⟩ := s.nextWithin_report h
  rw [hJournal, hReport.traced_concat (s.level_outcome start horizon _)]
  constructor
  · intro hSame
    rw [← eq_of_traces_eq hSame]
    exact hReport.steps
  · intro hSteps
    rw [hReport.steps.unique hSteps]

/-! ## By points in time -/

/-- A whole minute of the wall clock after the start which all five fields accept, while
neither its earliest nor its latest instant lies after the start. -/
def PassedOver (s : Schedule) (start : Instant z) (w : DateTime) : Prop :=
  w.IsMinute ∧ start.wall < w ∧ (∀ f, (s.field f).accepts (f.valueAt w.minute) = true) ∧
    ∀ i, z.earliest? w.minute = some i ∨ z.latest? w.minute = some i → ¬ start < i

theorem passedOver_iff {s : Schedule} {start : Instant z} {w : DateTime} :
    s.PassedOver start w ↔ w.IsMinute ∧
      start.wall.minute < w.minute ∧ s.runsAt w.minute ∧ showing? start w.minute = none := by
  have hShown : showing? start w.minute = none ↔
      ∀ i, z.earliest? w.minute = some i ∨ z.latest? w.minute = some i → ¬ start < i := by
    rw [← not_iff_not, ← ne_eq, Option.ne_none_iff_exists', exists_showing?_iff]
    push Not
    rfl
  refine and_congr_right fun hMinute => ?_
  rw [hMinute.lt_iff, runsAt_iff, hShown]

/-- What the journal of a search tells: the minutes passed over and what came of the
search, to everybody, and the minutes left out, for tracing. -/
structure Tells (s : Schedule) (start : Instant z) (horizon : Duration)
    (search : Journaled (Except Error (Instant z))) (hidden : List DateTime)
    (steps : List (DateTime × Field)) : Prop where
  back : search.journal.toList.getLast? = some (s.outcome start horizon search.value)
  debug : (search.journal.toList.filter fun r => r.level = .debug) =
    hidden.map (fun w => .unmapped w.minute start.wall) ++
      [s.outcome start horizon search.value]
  trace : (search.journal.toList.filter fun r => r.level = .trace) =
    steps.map fun a => .skipping a.1.minute a.2
  hidden_ascending : hidden.Pairwise (· < ·)
  mem_hidden_of_ok : ∀ i, search.value = .ok i →
    ∀ w, w ∈ hidden ↔ s.PassedOver start w ∧ w < i.wall
  mem_hidden_of_error : ∀ e, search.value = .error e →
    ∀ w, w ∈ hidden ↔
      s.PassedOver start w ∧ ∃ limit, start.wall.add? horizon = some limit ∧ w ≤ limit
  steps_ascending : steps.Pairwise fun a b => a.1 < b.1
  steps_within : ∀ a ∈ steps, a.1.IsMinute ∧ start.wall.truncated ≤ a.1 ∧
    ∃ limit, start.wall.add? horizon = some limit ∧ a.1 ≤ limit
  steps_refused : ∀ a ∈ steps, (s.field a.2).accepts (a.2.valueAt a.1.minute) = false

/-- A search that cannot begin tells that only. -/
theorem tells_of_add?_eq_none (s : Schedule) {start : Instant z} {horizon : Duration}
    (h : start.wall.add? horizon = none) :
    s.Tells start horizon (s.nextWithin start horizon) [] [] := by
  have hJournal : s.nextWithin start horizon =
      ⟨.error (.noUpcoming start.wall horizon), #[.exhausted s start.wall horizon]⟩ := by
    rw [nextWithin, h]
    rfl
  rw [hJournal]
  refine ⟨rfl, rfl, rfl, List.Pairwise.nil, ?_, ?_, List.Pairwise.nil, ?_, ?_⟩
  · intro i hOk
    cases hOk
  · intro e _ w
    simp [h]
  · intro a ha
    cases ha
  · intro a ha
    cases ha

namespace Report

variable {s : Schedule} {start : Instant z} {lo hi : Int} {records : List Record}

/-- The minutes that a report names are points in time, if the calendar spans them. -/
theorem exists_times {steps : List (Int × Field)} {hidden : List Int}
    (h : s.Report start lo hi records steps hidden)
    (hSpan : ∀ m, lo ≤ m → m < hi → Minute.Spanned m) :
    ∃ (ws : List DateTime) (ts : List (DateTime × Field)),
      s.Report start lo hi records (ts.map fun a => (a.1.minute, a.2)) (ws.map DateTime.minute) ∧
      (∀ w ∈ ws, w.IsMinute) ∧ ∀ a ∈ ts, a.1.IsMinute := by
  obtain ⟨ws, rfl, hWs⟩ : ∃ ws : List DateTime, ws.map DateTime.minute = hidden ∧
      ∀ w ∈ ws, w.IsMinute := by
    apply DateTime.exists_map_eq
    intro m hm
    obtain ⟨hAfter, hBefore, -⟩ := (h.mem_iff m).1 hm
    exact DateTime.exists_isMinute (hSpan m (Int.le_of_lt hAfter) hBefore)
  obtain ⟨ts, rfl, hTs⟩ : ∃ ts : List (DateTime × Field),
      ts.map (fun a => (a.1.minute, a.2)) = steps ∧ ∀ a ∈ ts, a.1.IsMinute := by
    apply DateTime.exists_map_eq
    intro b hb
    obtain ⟨hFrom, hBefore⟩ := h.steps.within b hb
    obtain ⟨t, hMinute, hEq⟩ := DateTime.exists_isMinute (hSpan b.1 hFrom hBefore)
    exact ⟨(t, b.2), hMinute, Prod.ext hEq rfl⟩
  exact ⟨ws, ts, h, hWs, hTs⟩

/-- The minutes of a report from the start on are those passed over. -/
theorem mem_iff_passedOver {steps : List (Int × Field)} {ws : List DateTime}
    (h : s.Report start start.wall.minute hi records steps (ws.map DateTime.minute))
    (hWs : ∀ w ∈ ws, w.IsMinute) (w : DateTime) :
    w ∈ ws ↔ s.PassedOver start w ∧ w.minute < hi := by
  rw [DateTime.mem_iff_of_forall_isMinute hWs, h.mem_iff, passedOver_iff]
  constructor
  · intro ⟨hMinute, hAfter, hBefore, hIs⟩
    exact ⟨⟨hMinute, hAfter, hIs⟩, hBefore⟩
  · intro ⟨⟨hMinute, hAfter, hIs⟩, hBefore⟩
    exact ⟨hMinute, hAfter, hBefore, hIs⟩

end Report

theorem tells_of_add?_eq_some (s : Schedule) {start : Instant z} {horizon : Duration}
    {limit : DateTime} (h : start.wall.add? horizon = some limit) :
    ∃ hidden steps, s.Tells start horizon (s.nextWithin start horizon) hidden steps := by
  obtain ⟨records, steps, hidden, hFound, hJournal, hReached⟩ := s.nextWithin_report h
  have hSpan (m : Int) (hLo : start.wall.minute ≤ m)
      (hHi : m < reached limit.minute (minuteFound (s.nextWithin start horizon).value)) :
      Minute.Spanned m :=
    start.wall.spanned_minute.of_le_of_le limit.spanned_minute hLo (by omega)
  obtain ⟨ws, ts, hReport, hWs, hTs⟩ := hFound.exists_times hSpan
  have hLevel := s.level_outcome start horizon (s.nextWithin start horizon).value
  refine ⟨ws, ts, ?_, ?_, ?_, ?_, ?_, ?_, ?_, ?_, ?_⟩
  · rw [hJournal, List.getLast?_concat]
  · rw [hJournal, hReport.passed_concat hLevel, List.map_map]
    rfl
  · rw [hJournal, hReport.traced_concat hLevel, traces, List.map_map]
    rfl
  · exact DateTime.pairwise_lt_of_minute hWs (List.pairwise_map.1 hReport.ascending)
  · intro i hOk w
    have hRun : i.wall.IsMinute := (run_of_nextWithin hOk).2.2.1
    rw [hReport.mem_iff_passedOver hWs, hOk, hRun.lt_iff]
    rfl
  · intro e hError w
    rw [hReport.mem_iff_passedOver hWs, hError, h]
    simp only [Option.some.injEq, exists_eq_left']
    refine and_congr_right fun hPassed => ?_
    rw [hPassed.1.le_iff]
    exact Int.lt_add_one_iff
  · have hAscending := hReport.steps.ascending
    rw [List.pairwise_map] at hAscending
    exact DateTime.pairwise_lt_of_minute hTs hAscending
  · intro a ha
    obtain ⟨hFrom, hBefore⟩ := hReport.steps.within _ (List.mem_map_of_mem ha)
    refine ⟨hTs a ha, ?_, limit, h, ?_⟩
    · rw [start.wall.isMinute_truncated.le_iff, DateTime.minute_truncated]
      exact hFrom
    · rw [(hTs a ha).le_iff]
      exact Int.lt_add_one_iff.1 (Int.lt_of_lt_of_le hBefore hReached)
  · intro a ha
    have hRefused := List.find?_some (hReport.steps.refused _ (List.mem_map_of_mem ha)).1
    rw [Bool.not_eq_true'] at hRefused
    exact hRefused

/-! ## Messages -/

open Record.message (time)

theorem minute_eq_time {w : DateTime} (h : w.IsMinute) :
    Record.message.minute w.minute = time w :=
  congrArg String.ofList (h.text_eq ' ').symm

theorem message_found (s : Schedule) (start : DateTime) {w : DateTime} (h : w.IsMinute) :
    (Record.found s start w.minute).message =
      "next execution of '" ++ s.text ++ "' after " ++ time start ++ " is " ++ time w := by
  rw [← minute_eq_time h]
  rfl

theorem message_unmapped (start : DateTime) {w : DateTime} (h : w.IsMinute) :
    (Record.unmapped w.minute start).message =
      "skipping local time " ++ time w ++ ", it doesn't map to an instant after " ++
        time start := by
  rw [← minute_eq_time h]
  rfl

theorem message_skipping {w : DateTime} (h : w.IsMinute) (f : Field) :
    (Record.skipping w.minute f).message =
      time w ++ ": skipping " ++ Record.skippedName f := by
  rw [← minute_eq_time h]
  rfl

/-- The journal of a search for the next run tells the truth.  Its last record is the
only one of what came of the search: the run that was found, by its wall clock, or that
none was, with the wall clock of the start and the horizon.  Before it there is a
record for each minute up to the run, or else up to the limit, at which the
schedule runs without an instant of it after the start, each once and in ascending
order.  The records for tracing ascend as well, lie between the minute of the
start and the limit, and name only minutes that a field refuses. -/
theorem nextWithin_tells_truth (s : Schedule) (start : Instant z) (horizon : Duration) :
    (∃ hidden steps, s.Tells start horizon (s.nextWithin start horizon) hidden steps) ∧
    (∀ i, (s.nextWithin start horizon).value = .ok i →
      s.outcome start horizon (.ok i) = .found s start.wall i.wall.minute ∧
      (s.outcome start horizon (.ok i)).message =
        "next execution of '" ++ s.text ++ "' after " ++ time start.wall ++ " is " ++
          time i.wall) ∧
    (∀ e, (s.nextWithin start horizon).value = .error e →
      e = .noUpcoming start.wall horizon ∧
      s.outcome start horizon (.error e) = .exhausted s start.wall horizon ∧
      (s.outcome start horizon (.error e)).message =
        "no upcoming execution of '" ++ s.text ++ "' after " ++ time start.wall ++
          " within " ++ String.ofList horizon.text) ∧
    ∀ w : DateTime, w.IsMinute →
      (Record.unmapped w.minute start.wall).message =
        "skipping local time " ++ time w ++ ", it doesn't map to an instant after " ++
          time start.wall ∧
      ∀ f, (Record.skipping w.minute f).message =
        time w ++ ": skipping " ++ Record.skippedName f := by
  refine ⟨?_, fun i hOk => ⟨rfl, ?_⟩, fun e hError => ⟨?_, rfl, rfl⟩,
    fun w hMinute => ⟨message_unmapped start.wall hMinute, message_skipping hMinute⟩⟩
  · cases hAdd : start.wall.add? horizon with
    | none => exact ⟨[], [], s.tells_of_add?_eq_none hAdd⟩
    | some limit => exact s.tells_of_add?_eq_some hAdd
  · exact message_found s start.wall (run_of_nextWithin hOk).2.2.1
  · exact ((s.nextWithin_eq_error_iff start horizon e).1 hError).1

/-- The clock is set forward from two to three, over a minute at which the schedule runs. -/
example :
    let z : Zone := ⟨3600, [⟨1711846800, 7200⟩]⟩
    let start : Instant z :=
      ⟨⟨1711845600, 0, by decide, by decide, by decide⟩,
        ⟨1711849200, 0, by decide, by decide, by decide⟩, by decide⟩
    let s : Schedule := { minute := .value 30, hour := .list [.value 2, .value 4] }
    (s.next start).journal.toList.map Record.message =
      ["skipping local time 2024-03-31 02:30:00, it doesn't map to an instant after " ++
          "2024-03-31 01:40:00",
        "2024-03-31 03:30:00: skipping hour",
        "next execution of '30 2,4 * * *' after 2024-03-31 01:40:00 is 2024-03-31 04:30:00"] := by
  decide +kernel

end

end Schedule

end Cron
