import LabBench.Instrument.MagnetSupply.Basic
import LabBench.Instrument.MagnetSupply.Simulation
import LabBench.Proofs.Wire.Reactions
/-!
# The reactions of a simulated supply

A simulated supply has two channels and acts on the one that is selected. A question is answered from the state
of this channel, and a command changes it. A limit that would pass the other one is left where it is, without a
word.
-/

namespace LabBench.MagnetSupply.Simulation

open Act

/-! ### Channels -/

def Memory.coil (m : Memory) (first : Bool) : Coil :=
  if first then m.one else m.two

/-- The memory with a channel in another state. -/
def Memory.put (m : Memory) (first : Bool) (k : Coil) : Memory :=
  if first then { m with one := k } else { m with two := k }

@[simp]
theorem Memory.coil_put (m : Memory) (first : Bool) (k : Coil) : (m.put first k).coil first = k := by
  cases first <;> rfl

@[simp]
theorem Memory.put_coil (m : Memory) (first : Bool) : m.put first (m.coil first) = m := by
  cases first <;> rfl

@[simp]
theorem isFirst_put (m : Memory) (first : Bool) (k : Coil) : isFirst (m.put first k) = isFirst m := by
  cases first <;> rfl

variable {s : Simulated Memory} {first : Bool} {t : String} {e : Fault}

theorem coil_eq (h : isFirst s.memory = .ok first) : coil s = (.ok (s.memory.coil first), s) := by
  change (Act.lift (isFirst s.memory) >>= fun b => pure (if b then s.memory.one else s.memory.two) :
    Act (Simulated Memory) Coil) s = _
  rw [h]
  rfl

theorem change_eq (h : isFirst s.memory = .ok first) (f : Coil → Coil) :
    change f s = (.ok ⟨⟩, { s with memory := s.memory.put first (f (s.memory.coil first)) }) := by
  have hchg : change f s = (Act.lift (isFirst s.memory) >>= fun b =>
    if b then Simulated.remember (fun m => { m with one := f m.one })
    else Simulated.remember (fun m => { m with two := f m.two }) : Act (Simulated Memory) PUnit) s := rfl
  rw [hchg, h]
  cases first <;> rfl

/-! ### Limits -/

/-- The two sides between which a channel stays. -/
inductive Side where
  | high
  | low
  deriving DecidableEq

namespace Side

def other : Side → Side
  | high => low
  | low => high

def command : Side → String
  | high => "ulim"
  | low => "llim"

/-- The message that moves the limit to the number of a text. -/
def order (side : Side) (t : String) : String :=
  side.command ++ " " ++ t

def limit : Side → Coil → Float
  | high, k => k.high
  | low, k => k.low

/-- Whether the limit can be moved to a number: it must not pass the other limit. -/
def Allows : Side → Float → Coil → Prop
  | high, y, k => k.low ≤ y
  | low, y, k => y ≤ k.high

instance (side : Side) (y : Float) (k : Coil) : Decidable (side.Allows y k) :=
  match side with
  | high => inferInstanceAs (Decidable (k.low ≤ y))
  | low => inferInstanceAs (Decidable (y ≤ k.high))

def place : Side → Float → Coil → Coil
  | high, y, k => { k with high := y }
  | low, y, k => { k with low := y }

/-- The limit is moved to a number, or stays if it cannot be moved there. -/
def move (side : Side) (y : Float) (k : Coil) : Coil :=
  if side.Allows y k then side.place y k else k

end Side

/-! ### Questions -/

def spoken (v : Value) : Outcome String :=
  (rounded v).map Value.display

def said (k : Coil) (x : Float) : Outcome String := do
  spoken (← shown k x)

/-- A channel with another current that was read last. -/
def Coil.withOutput (k : Coil) (y : Float) : Coil :=
  { k with output := y }

inductive Question where
  | output
  | limit (side : Side)
  | sweep

namespace Question

def text : Question → String
  | output => "iout?"
  | limit .high => "ulim?"
  | limit .low => "llim?"
  | sweep => "sweep?"

def reply (k : Coil) (time : Float) : Question → Outcome String
  | output => said k (k.ramp.at time)
  | limit side => said k (side.limit k)
  | sweep => spoken (.text k.sweep)

def note (time : Float) (k : Coil) : Question → Coil
  | output => k.withOutput (k.ramp.at time)
  | limit _ | sweep => k

end Question

theorem rounded_text (w : String) : rounded (.text w) = (spoken (.text w)).map .text := by
  unfold spoken rounded
  dsimp only
  by_cases hbare : (without " kG" w == w) = true
  · simp only [hbare]
    rfl
  · simp only [hbare]
    cases number (without " kG" w) <;> rfl

theorem spoken_of_without {w : String} (h : without " kG" w = w) : spoken (.text w) = .ok w := by
  unfold spoken rounded
  dsimp only
  rw [h, beq_self_eq_true]
  rfl

theorem shown_eq_text {k : Coil} {x : Float} {v : Value} (h : shown k x = .ok v) : v = .text v.display := by
  unfold shown at h
  dsimp only at h
  split at h <;> cases h <;> rfl

def polish : Option Value → Act (Simulated Memory) (Option Value)
  | some v => do return some (← rounded v)
  | none => return none

theorem respond_eq {text : String} {m : Message} (hm : Message.ofText text = .ok m) (h : isFirst s.memory = .ok first) :
    respond text s =
      ((if m.isQuery then answer (s.memory.coil first) m else obey (s.memory.coil first) m) >>= polish) s := by
  simp only [respond, hm]
  change (coil >>= _) s = _
  rw [bind_of_ok (coil_eq h)]
  cases m.isQuery
  all_goals
    refine Act.bind_congr rfl ?_
    rintro (_ | v) t - <;> rfl

theorem polish_text (w : String) (s : Simulated Memory) :
    polish (some (.text w)) s = ((spoken (.text w)).map fun w => some (.text w), s) := by
  have hpolish : polish (some (.text w)) s =
      (Act.lift (rounded (.text w)) >>= fun v => pure (some v) : Act (Simulated Memory) (Option Value)) s := rfl
  rw [hpolish, rounded_text]
  cases spoken (.text w) <;> rfl

def show? (k : Coil) (x : Float) : Act (Simulated Memory) (Option Value) := do
  return some (← shown k x)

theorem polish_show? (k : Coil) (x : Float) (s : Simulated Memory) :
    (show? k x >>= polish) s = ((said k x).map fun w => some (.text w), s) := by
  have hshow : show? k x = (Act.lift (shown k x) >>= fun v => pure (some v)) := rfl
  rcases hshown : shown k x with e | v
  · rw [hshow, said, hshown]
    rfl
  · obtain ⟨w, rfl⟩ : ∃ w, v = .text w := ⟨_, shown_eq_text hshown⟩
    rw [hshow, said, hshown]
    exact polish_text w s

theorem answer_output (k : Coil) : answer k ⟨["iout"], "", true⟩ = (present k >>= fun x =>
    change (fun c => { c with output := x }) >>= fun _ => show? k x) := rfl

theorem answer_limit (k : Coil) (side : Side) : answer k ⟨[side.command], "", true⟩ = show? k (side.limit k) := by
  cases side <;> rfl

theorem answer_sweep (k : Coil) : answer k ⟨["sweep"], "", true⟩ = pure (some (.text k.sweep)) := rfl

theorem respond_question (h : isFirst s.memory = .ok first) (q : Question) :
    respond q.text s = ((q.reply (s.memory.coil first) s.clock).map fun w => some (.text w),
      { s with memory := s.memory.put first (q.note s.clock (s.memory.coil first)) }) := by
  cases q with
  | output =>
    have hmsg : Message.ofText Question.output.text = .ok ⟨["iout"], "", true⟩ := rfl
    have hpresent (k : Coil) : present k s = (.ok (k.ramp.at s.clock), s) := rfl
    rw [respond_eq hmsg h, if_pos rfl, answer_output, bind_assoc, bind_of_ok (hpresent _),
      bind_assoc, bind_of_ok (change_eq h _), polish_show?]
    rfl
  | limit side =>
    have hmsg : Message.ofText (Question.limit side).text = .ok ⟨[side.command], "", true⟩ := by
      cases side <;> rfl
    rw [respond_eq hmsg h, if_pos rfl, answer_limit, polish_show?, Question.note, Memory.put_coil]
    rfl
  | sweep =>
    have hmsg : Message.ofText Question.sweep.text = .ok ⟨["sweep"], "", true⟩ := rfl
    rw [respond_eq hmsg h, if_pos rfl, answer_sweep, pure_bind, polish_text, Question.note, Memory.put_coil]
    rfl

/-! ### Orders -/

inductive Course where
  | zero
  | toward (side : Side)
  deriving DecidableEq

namespace Course

def word : Course → String
  | zero => "zero"
  | toward .high => "up"
  | toward .low => "down"

def description : Course → String
  | zero => "Sweeping to zero"
  | toward .high => "Sweeping up"
  | toward .low => "Sweeping down"

def last (k : Coil) : Course → Float
  | zero => 0.0
  | toward side => side.limit k

def started (course : Course) (time : Float) (k : Coil) : Coil :=
  { k with ramp := ⟨time, k.output, course.last k⟩, sweep := course.description }

end Course

theorem obey_sweep (k : Coil) (a : String) :
    obey k ⟨["sweep"], a, false⟩ = (startSweep k a >>= fun _ => pure (some .none)) := rfl

theorem respond_sweep (h : isFirst s.memory = .ok first) (course : Course) :
    respond ("sweep " ++ course.word) s = (.ok (some .none),
      { s with memory := s.memory.put first (course.started s.clock (s.memory.coil first)) }) := by
  have hmsg : Message.ofText ("sweep " ++ course.word) = .ok ⟨["sweep"], course.word, false⟩ := by
    rcases course with _ | _ | _ <;> rfl
  have hstart (k : Coil) : startSweep k course.word s = change (fun c => { c with
      ramp := ⟨s.clock, k.output, course.last k⟩
      sweep := course.description }) s := by
    rcases course with _ | _ | _ <;> rfl
  rw [respond_eq hmsg h, if_neg Bool.false_ne_true, obey_sweep, bind_assoc,
    bind_of_ok ((hstart _).trans (change_eq h _))]
  rfl

/-- The number of a text as the supply reads it. -/
def heardNumber (t : String) : Outcome Float :=
  number (String.ofList (Text.trim Text.isBlank t.toList))

theorem ofText_limit (side : Side) (t : String) : Message.ofText (side.order t) =
    .ok ⟨[side.command], String.ofList (Text.trim Text.isBlank t.toList), false⟩ := by
  have htext : (side.order t).toList = side.command.toList ++ ' ' :: t.toList := by
    simp [Side.order]
  cases side <;> exact Message.ofText_command htext (by decide) (by decide) (by decide)

theorem obey_limit (k : Coil) (side : Side) (a : String) :
    obey k ⟨[side.command], a, false⟩ = (Act.lift (number a) >>= fun y =>
      if side.Allows y k then change (side.place y) >>= fun _ => pure (some .none) else pure (some .none)) := by
  cases side <;> rfl

theorem respond_limit (h : isFirst s.memory = .ok first) (side : Side) {y : Float} (hy : heardNumber t = .ok y) :
    respond (side.order t) s = (.ok (some .none),
      { s with memory := s.memory.put first (side.move y (s.memory.coil first)) }) := by
  rw [respond_eq (ofText_limit side t) h, if_neg Bool.false_ne_true, obey_limit, ← heardNumber, hy]
  have hlift (f : Float → Act (Simulated Memory) (Option Value)) : (Act.lift (.ok y) >>= f) = f y := rfl
  rw [hlift, Side.move]
  by_cases hallows : side.Allows y (s.memory.coil first)
  · rw [if_pos hallows, if_pos hallows, bind_assoc, bind_of_ok (change_eq h _)]
    rfl
  · rw [if_neg hallows, if_neg hallows, Memory.put_coil]
    rfl

theorem respond_limit_error (h : isFirst s.memory = .ok first) (side : Side)
    (he : heardNumber t = .error e) : respond (side.order t) s = (.error e, s) := by
  rw [respond_eq (ofText_limit side t) h, if_neg Bool.false_ne_true, obey_limit, ← heardNumber, he]
  rfl

theorem move_withOutput (side : Side) (x y : Float) (k : Coil) :
    side.move x (k.withOutput y) = (side.move x k).withOutput y := by
  have hallows : side.Allows x (k.withOutput y) ↔ side.Allows x k := by
    cases side <;> rfl
  unfold Side.move
  by_cases h : side.Allows x k
  · rw [if_pos h, if_pos (hallows.mpr h)]
    cases side <;> rfl
  · rw [if_neg h, if_neg (mt hallows.mp h)]

/-- The memory with a channel selected by a text. -/
def Memory.choose (m : Memory) (text : String) : Memory :=
  { m with selected := .text (String.ofList (Text.trim Text.isBlank text.toList)) }

@[simp]
theorem Memory.coil_choose (m : Memory) (text : String) (b : Bool) : (m.choose text).coil b = m.coil b := by
  cases b <;> rfl

theorem toInt_choose (m : Memory) (c : Channel) :
    (m.choose (Value.int c.number).display).selected.toInt = .ok c.number := by
  cases c <;> rfl

theorem ofText_chan (text : String) :
    Message.ofText ("chan " ++ text) = .ok ⟨["chan"], String.ofList (Text.trim Text.isBlank text.toList), false⟩ := by
  have htext : ("chan " ++ text).toList = "chan".toList ++ ' ' :: text.toList := by simp
  exact Message.ofText_command htext (by decide) (by decide) (by decide)

theorem respond_chan (h : isFirst s.memory = .ok first) (text : String) :
    respond ("chan " ++ text) s = (.ok (some .none), { s with memory := s.memory.choose text }) := by
  rw [respond_eq (ofText_chan text) h, if_neg Bool.false_ne_true]
  rfl

theorem respond_of_isFirst_error {text : String} {m : Message}
    (hm : Message.ofText text = .ok m) (h : isFirst s.memory = .error e) : respond text s = (.error e, s) := by
  have hcoil : coil s = (.error e, s) := by
    change (Act.lift (isFirst s.memory) >>= fun b => pure (if b then s.memory.one else s.memory.two) :
      Act (Simulated Memory) Coil) s = _
    rw [h]
    rfl
  simp only [respond, hm]
  change (coil >>= _) s = _
  exact bind_of_error hcoil

/-! ### The line -/

open Simulated

/-- The supply has received a message and has another memory since then. -/
structure Received (text : String) (memory : Memory) (s s' : Simulated Memory) : Prop where
  memory : s'.memory = memory
  clock : s'.clock = s.clock
  answers : s'.answers = s.answers
  log : s'.log = s.log ++ [text]

section

variable (h : isFirst s.memory = .ok first)

include h

theorem query_question (hans : s.answers = none) (q : Question) :
    ∃ s', query q.text s = ((q.reply (s.memory.coil first) s.clock).map fun w => some (heard Memory w), s') ∧
      Received q.text (s.memory.put first (q.note s.clock (s.memory.coil first))) s s' := by
  have hresp : respond q.text (noted q.text s) =
      ((q.reply (s.memory.coil first) s.clock).map fun w => some (.text w), { noted q.text s with
        memory := s.memory.put first (q.note s.clock (s.memory.coil first)) }) :=
    respond_question (s := noted q.text s) h q
  rcases hreply : q.reply (s.memory.coil first) s.clock with e | w
  · rw [hreply] at hresp
    exact ⟨_, bind_of_error (receive_of_error hresp), rfl, rfl, rfl, rfl⟩
  · rw [hreply] at hresp
    exact ⟨_, query_of_text hresp hans, rfl, rfl, rfl, rfl⟩

theorem receive_sweep (course : Course) : ∃ s', receive ("sweep " ++ course.word) s = (.ok ⟨⟩, s') ∧
      Received ("sweep " ++ course.word) (s.memory.put first (course.started s.clock (s.memory.coil first))) s s' :=
  ⟨_, receive_of_none (respond_sweep (s := noted _ s) h course), rfl, rfl, rfl, rfl⟩

theorem receive_limit (side : Side) {y : Float} (hy : heardNumber t = .ok y) :
    ∃ s', receive (side.order t) s = (.ok ⟨⟩, s') ∧
      Received (side.order t) (s.memory.put first (side.move y (s.memory.coil first))) s s' :=
  ⟨_, receive_of_none (respond_limit (s := noted _ s) h side hy), rfl, rfl, rfl, rfl⟩

theorem receive_limit_error (side : Side)
    (he : heardNumber t = .error e) : receive (side.order t) s = (.error e, noted (side.order t) s) :=
  receive_of_error (respond_limit_error (s := noted _ s) h side he)

theorem receive_chan (text : String) :
    ∃ s', receive ("chan " ++ text) s = (.ok ⟨⟩, s') ∧ Received ("chan " ++ text) (s.memory.choose text) s s' :=
  ⟨_, receive_of_none (respond_chan (s := noted _ s) h text), rfl, rfl, rfl, rfl⟩

end

end LabBench.MagnetSupply.Simulation
