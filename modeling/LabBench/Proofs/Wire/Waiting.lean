import LabBench.Proofs.Frame
import LabBench.Proofs.Number.Decimals
import LabBench.Wire.Session
/-!
# Waiting for an instrument

An instrument is asked again and again until it answers, or until the longest wait is over. This takes a silence to be a
timeout. On the network it is none if the instrument can be written to and is silent after that.

Timeouts may be of any length. If each of them moves the clock by some fixed amount at least, then there cannot be more
of them than fit into the longest wait, so that the wait comes to an end.

## Main definitions

* `Session.TimesOut`, `Session.GoesOn`: the questions that time out, and waits that go on after them.
* `Session.Ends`: how a wait is to end.

## Main results

* `Session.settle_ends`: a wait ends with the first question that does not time out, or when its time is over.
-/

namespace LabBench.Session

open Act List Number

/-- How long it takes until the question with a number has timed out. -/
def lapseAt (s : Session) (n : Nat) : Float :=
  match s.script.happenings[n]? with
  | some (.lapse _ seconds) => seconds
  | _ => s.script.patience

/-- The clock after some silences. -/
def afterSilences (s : Session) : Nat → Float
  | 0 => s.script.clock
  | n + 1 => s.afterSilences n + s.lapseAt n

/-- The instrument answers the question with a number. -/
def Answers (s : Session) (n : Nat) : Prop :=
  ∃ text, s.script.happenings[n]? = some (.answer text)

/-- The question with a number ends in a timeout: the instrument is silent already when it is written to, or it is
silent on the parallel bus, as it is after all that happens. -/
def TimesOut (s : Session) (n : Nat) : Prop :=
  (∃ seconds, s.script.happenings[n]? = some (.lapse true seconds)) ∨ s.bus = .parallel ∧
    ((∃ seconds, s.script.happenings[n]? = some (.lapse false seconds)) ∨ s.script.happenings[n]? = none)

/-- The first questions time out, and not after some time. -/
def GoesOn (s : Session) (last : Float) (n : Nat) : Prop :=
  ∀ k < n, s.TimesOut k ∧ ¬last < s.afterSilences (k + 1)

/-- The session at another time, after some happenings. -/
def later (s : Session) (clock : Float) (n : Nat) (deeds : List Deed) : Session :=
  { s with script := { s.script with clock, happenings := s.script.happenings.drop n, deeds } }

/-- An open session outside of a section, on a bus that waits. -/
structure Waits (s : Session) : Prop where
  bus : s.bus ≠ .usb
  isOpen : s.isOpen = true
  collected : s.collected = none

def timeout : Fault :=
  .because .timeout "timeout"

/-- After some timeouts up to a time, the instrument answers, or else there is one more timeout, after that time. -/
def Ends (s : Session) (last : Float) (r : Outcome PUnit × Session) : Prop :=
  ∃ n deeds, s.GoesOn last n ∧ (s.Answers n ∧ r = (.ok ⟨⟩, s.later (s.afterSilences n) (n + 1) deeds) ∨
      s.TimesOut n ∧ last < s.afterSilences (n + 1) ∧
        r = (.error timeout, s.later (s.afterSilences (n + 1)) (n + 1) deeds))

variable {s : Session} {n : Nat} (last : Float) (hs : s.Waits) (clock : Float) (deeds : List Deed)

include hs

theorem isSettled_of_answers (h : s.Answers n) :
    ∃ deeds', isSettled last (s.later clock n deeds) = (.ok (some ⟨⟩), s.later clock (n + 1) deeds') := by
  obtain ⟨⟨bus, _⟩, ⟨_, happenings, patience, _, _⟩, _, isOpen, collected, _⟩ := s
  obtain ⟨hbus, rfl, rfl⟩ := hs
  obtain ⟨text, h⟩ := h
  obtain ⟨rest, hrest⟩ := head?_eq_some_iff.mp (head?_drop.trans h)
  simp only [later, ← tail_drop, hrest]
  cases bus with
  | usb => exact absurd rfl hbus
  | network | parallel => exact ⟨_, rfl⟩

theorem isSettled_of_timesOut (h : s.TimesOut n) : ∃ deeds', isSettled last (s.later clock n deeds) =
      (if last < clock + s.lapseAt n then .error timeout else .ok none,
        s.later (clock + s.lapseAt n) (n + 1) deeds') := by
  obtain ⟨⟨bus, _⟩, ⟨_, happenings, patience, _, _⟩, _, isOpen, collected, _⟩ := s
  obtain ⟨hbus, rfl, rfl⟩ := hs
  have hlate (t : Float) (s' : Session) : (if (!decide (last < t)) = true then pure none else
      .fail timeout : Act Session (Option PUnit)) s' = (if last < t then .error timeout else .ok none, s') := by
    by_cases hlast : last < t
    · rw [if_neg (by simpa using hlast), if_pos hlast]
      rfl
    · rw [if_pos (by simpa using hlast), if_neg hlast]
      rfl
  simp only [TimesOut, ← head?_drop] at h
  simp only [later, lapseAt, ← tail_drop, ← head?_drop]
  generalize happenings.drop n = next at h ⊢
  rcases h with ⟨t, h⟩ | ⟨rfl, ⟨t, h⟩ | h⟩
  · obtain ⟨rest, rfl⟩ := head?_eq_some_iff.mp h
    cases bus with
    | usb => exact absurd rfl hbus
    | network | parallel => exact ⟨_, hlate (clock + t) _⟩
  · obtain ⟨rest, rfl⟩ := head?_eq_some_iff.mp h
    exact ⟨_, hlate (clock + t) _⟩
  · obtain rfl := head?_eq_none_iff.mp h
    exact ⟨_, hlate (clock + patience) _⟩

/-- From the question with a number on, the wait comes to its end if it cannot go on for all rounds that are left. -/
theorem repeatUntil_isSettled {rounds : Nat} (hall : ∀ n, s.GoesOn last n → s.Answers n ∨ s.TimesOut n)
    (hshort : ¬s.GoesOn last (n + rounds)) (hgoes : s.GoesOn last n) :
    s.Ends last (repeatUntil (isSettled last) rounds (s.later (s.afterSilences n) n deeds)) := by
  induction rounds generalizing n deeds with
  | zero => exact absurd hgoes hshort
  | succ rounds ih =>
    rcases hall n hgoes with h | h
    · obtain ⟨deeds', hact⟩ := isSettled_of_answers last hs (s.afterSilences n) deeds h
      refine ⟨n, deeds', hgoes, .inl ⟨h, ?_⟩⟩
      rw [repeatUntil, bind_of_ok hact]
      rfl
    · obtain ⟨deeds', hact⟩ := isSettled_of_timesOut last hs (s.afterSilences n) deeds h
      change _ = (if last < s.afterSilences (n + 1) then _ else _, s.later (s.afterSilences (n + 1)) _ _) at hact
      by_cases hlast : last < s.afterSilences (n + 1)
      · rw [if_pos hlast] at hact
        exact ⟨n, deeds', hgoes, .inr ⟨h, hlast, bind_of_error hact⟩⟩
      · rw [if_neg hlast] at hact
        rw [repeatUntil, bind_of_ok hact]
        refine ih deeds' (Nat.add_right_comm n rounds 1 ▸ hshort) fun k hk => ?_
        rcases Nat.lt_succ_iff_lt_or_eq.mp hk with hk | rfl
        · exact hgoes k hk
        · exact ⟨h, hlast⟩

omit hs

/-- Each timeout after which the wait goes on moves the clock by some amount at least. -/
def MovesBy (s : Session) (last : Float) (amount : ℚ) : Prop :=
  ∀ n, s.GoesOn last (n + 1) → (s.afterSilences (n + 1)).isFinite = true ∧
    value (s.afterSilences n) + amount ≤ value (s.afterSilences (n + 1))

theorem MovesBy.le_value {last : Float} {amount : ℚ} (h : s.MovesBy last amount) (hgoes : s.GoesOn last n) :
    value s.script.clock + n * amount ≤ value (s.afterSilences n) := by
  induction n with
  | zero => simp [afterSilences]
  | succ n ih =>
    have hlast := (h n hgoes).2
    have hfirst := ih fun k hk => hgoes k (hk.trans n.lt_succ_self)
    push_cast
    linarith

/-- There are not more timeouts than fit into the time. -/
theorem MovesBy.exists_not_goesOn {last : Float} {amount : ℚ} (h : s.MovesBy last amount) (hpos : 0 < amount)
    (hlast : last.isFinite) : ∃ enough, ∀ n ≥ enough, ¬s.GoesOn last n := by
  obtain ⟨enough, henough⟩ := exists_nat_gt ((value last - value s.script.clock) / amount)
  rw [div_lt_iff₀ hpos] at henough
  refine ⟨enough + 1, fun n hn hgoes => ?_⟩
  obtain ⟨n, rfl⟩ := Nat.exists_eq_add_of_le' (Nat.le_of_add_left_le hn)
  have hle := h.le_value hgoes
  have hlate := (hgoes n n.lt_succ_self).2
  rw [lt_iff_value_lt hlast (h n hgoes).1, not_lt] at hlate
  have hmany : (enough : ℚ) * amount ≤ (n + 1 : ℕ) * amount := by
    gcongr
    omega
  linarith

/-- Whatever the lengths of the timeouts are, if each of them moves the clock by some fixed amount at least, then a wait
ends with the first question that does not time out. Only after the longest wait is a timeout a fault. -/
theorem settle_ends (hs : s.Waits) (hall : ∀ n, s.GoesOn (s.script.clock + longestWait) n → s.Answers n ∨ s.TimesOut n)
    (hlast : (s.script.clock + longestWait).isFinite) {amount : ℚ} (hpos : 0 < amount)
    (hadv : s.MovesBy (s.script.clock + longestWait) amount) :
    ∃ enough, ∀ rounds ≥ enough, s.Ends (s.script.clock + longestWait) (settleWithin rounds s) := by
  obtain ⟨enough, henough⟩ := hadv.exists_not_goesOn hpos hlast
  refine ⟨enough, fun rounds hrounds => ?_⟩
  have hnow : Clocked.now s = (.ok s.script.clock, s) := rfl
  rw [settleWithin, bind_of_ok hnow]
  refine repeatUntil_isSettled (n := 0) _ hs s.script.deeds hall ?_ nofun
  rw [Nat.zero_add]
  exact henough rounds hrounds

/-- A session on the network, at the start. -/
def onNetwork (happenings : List Happening) : Session where
  address := .ofHost (.text "192.0.2.1")
  script := { happenings }
  isOpen := true

theorem settle_after_silence : ∃ enough, ∀ rounds ≥ enough, (onNetwork [.lapse true 0.5, .answer "1"]).Ends
    (0.0 + longestWait) (settleWithin rounds (onNetwork [.lapse true 0.5, .answer "1"])) := by
  have hshort (n : Nat) : ¬(onNetwork [.lapse true 0.5, .answer "1"]).GoesOn (0.0 + longestWait) (n + 2) := by
    intro hn
    rcases (hn 1 (by omega)).1 with ⟨t, h⟩ | ⟨h, -⟩ <;> cases h
  refine settle_ends (s := onNetwork [.lapse true 0.5, .answer "1"]) ⟨nofun, rfl, rfl⟩ (fun n hn => ?_)
    (by decide +kernel) (show (0 : ℚ) < 1 / 2 by norm_num) fun n hn => ?_
  · rcases n with _ | _ | n
    · exact .inr (.inl ⟨0.5, rfl⟩)
    · exact .inl ⟨_, rfl⟩
    · exact absurd hn (hshort n)
  · cases n with
    | zero => exact ⟨by decide +kernel, by decide +kernel⟩
    | succ n => exact absurd hn (hshort n)

/-- On the network, a silence when the instrument is read ends the wait at once. -/
theorem settle_silent_read : (settle (onNetwork [.silence false, .answer "1"])).1 = .error (.plain .visa) :=
  rfl

end LabBench.Session
