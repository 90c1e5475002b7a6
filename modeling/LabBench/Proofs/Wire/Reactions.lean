import LabBench.Proofs.Frame
import LabBench.Proofs.Text.Parts
import LabBench.Instrument.Basic
import LabBench.Wire.Simulated
/-!
# Messages and the reactions to them

A message is a command, a space and an argument. Blanks at the ends of the argument are lost, whatever
they stand for. A simulated instrument notes every message and responds to it, and what it says stands in
its output until the next message.
-/

namespace LabBench

open Text Act Simulation List

/-! ### The parts of a message -/

namespace Message

variable {text : String} {command argument : List Char}

theorem ofText_command (htext : text.toList = command ++ ' ' :: argument)
    (hcmd : command.all (!isBlank ·) = true) (hne : command ≠ []) (hplain : command.getLast? ≠ some '?') :
    ofText text = .ok ⟨(splitAt ':' command).map String.ofList, String.ofList (trim isBlank argument), false⟩ := by
  obtain ⟨last, hlast⟩ := Option.isSome_iff_exists.mp (getLast?_isSome.mpr hne)
  have hlast' : last ≠ '?' := by
    rintro rfl
    exact hplain hlast
  unfold ofText
  simp only [htext, splitFirst_append hcmd hne, hlast, beq_eq_false_iff_ne.mpr hlast']
  rfl

theorem ofText_query (htext : text.toList = command ++ '?' :: ' ' :: argument)
    (hcmd : command.all (!isBlank ·) = true) :
    ofText text = .ok ⟨(splitAt ':' command).map String.ofList, String.ofList (trim isBlank argument), true⟩ := by
  have hlist : text.toList = (command ++ ['?']) ++ ' ' :: argument := by simp [htext]
  have hall : (command ++ ['?']).all (!isBlank ·) = true := by
    rw [all_append, hcmd]
    rfl
  unfold ofText
  simp only [hlist, splitFirst_append hall (by simp), getLast?_concat, dropLast_concat]
  rfl

end Message

/-! ### Reactions -/

namespace Simulated

theorem consult_bind {μ α β : Type} (f : μ → α) (g : α → Act (Simulated μ) β) (s : Simulated μ) :
    (consult f >>= g) s = g (f s.memory) s :=
  rfl

variable {μ : Type} [Simulation μ] {s s' : Simulated μ} {text w : String} {v : Value}

/-- The state after a message has been noted. -/
def noted (text : String) (s : Simulated μ) : Simulated μ :=
  { s with log := s.log ++ [text] }

theorem receive_of_some (h : Simulation.respond text (noted text s) = (.ok (some v), s')) (hv : v ≠ .none) :
    receive text s = (.ok ⟨⟩, { s' with output := some (v.display ++ ending μ) }) := by
  refine (bind_of_ok h).trans ?_
  cases v with
  | none => exact absurd rfl hv
  | _ => rfl

theorem receive_of_text (h : Simulation.respond text (noted text s) = (.ok (some (.text w)), s')) :
    receive text s = (.ok ⟨⟩, { s' with output := some (w ++ ending μ) }) :=
  receive_of_some h nofun

theorem receive_of_none (h : Simulation.respond text (noted text s) = (.ok (some .none), s')) :
    receive text s = (.ok ⟨⟩, { s' with output := none }) :=
  bind_of_ok h

theorem receive_of_error {e : Fault} (h : Simulation.respond text (noted text s) = (.error e, s')) :
    receive text s = (.error e, s') := by
  change (Simulation.respond text >>= _) (noted text s) = _
  exact bind_of_error h

/-- What is heard of a text that is said: blanks at its end are lost. -/
def heard (μ : Type) [Simulation μ] (w : String) : String :=
  String.ofList (trimRight isBlank (w ++ ending μ).toList)

theorem heard_of_last {c : Char} (hc : w.toList.getLast? = some c) (hblank : isBlank c = false)
    (hending : trimRight isBlank (ending μ).toList = []) : heard μ w = w := by
  rw [heard, String.toList_append, trimRight_append_of_last hc hblank, hending, append_nil, String.ofList_toList]

theorem query_of_some (h : Simulation.respond text (noted text s) = (.ok (some v), s')) (hv : v ≠ .none)
    (hans : s'.answers = none) :
    query text s = (.ok (some (heard μ v.display)), { s' with output := some (v.display ++ ending μ) }) := by
  obtain ⟨memory, clock, dice, rolls, output, answers, log⟩ := s'
  subst hans
  exact bind_of_ok (receive_of_some h hv)

theorem query_of_section {answers : List String}
    (h : Simulation.respond text (noted text s) = (.ok (some v), s')) (hv : v ≠ .none)
    (hans : s'.answers = some answers) : query text s = (.ok none, { s' with
      output := some (v.display ++ ending μ), answers := some (answers ++ [heard μ v.display]) }) := by
  obtain ⟨memory, clock, dice, rolls, output, _, log⟩ := s'
  subst hans
  exact bind_of_ok (receive_of_some h hv)

theorem query_of_text (h : Simulation.respond text (noted text s) = (.ok (some (.text w)), s'))
    (hans : s'.answers = none) :
    query text s = (.ok (some (heard μ w)), { s' with output := some (w ++ ending μ) }) := by
  simpa only [Value.display] using query_of_some h nofun hans

theorem askRaw_of_text (h : Simulation.respond text (noted text s) = (.ok (some (.text w)), s')) :
    Line.askRaw text s = (.ok (some (w ++ ending μ)), { s' with output := some (w ++ ending μ) }) :=
  bind_of_ok (receive_of_text h)

end Simulated

/-! ### Desks -/

namespace Desk

variable {κ β α : Type}

theorem onLine_eq {act : Act β α} {line line' : β} {x : Outcome α} (h : act line = (x, line')) (settings : κ)
    (status : List String) : onLine act ⟨settings, status, line⟩ = (x, ⟨settings, status, line'⟩) := by
  rw [onLine, Act.focus, h]

theorem write_eq {μ : Type} [Simulation μ] {text : String} {line line' : Simulated μ} {x : Outcome PUnit}
    (h : Simulated.receive text line = (x, line')) (settings : κ) (status : List String) :
    write text ⟨settings, status, line⟩ = (x, ⟨settings, status, line'⟩) :=
  onLine_eq h settings status

theorem busy_eq {what : String} {act : Act (Desk κ β) α} {settings settings' : κ} {status : List String}
    {line line' : β} {x : Outcome α}
    (h : act ⟨settings, status ++ [what], line⟩ = (x, ⟨settings', status ++ [what], line'⟩)) :
    busy what act ⟨settings, status, line⟩ = (x, ⟨settings', status, line'⟩) := by
  have hstart : (modify fun d => { d with status := d.status ++ [what] } : Act (Desk κ β) PUnit)
      ⟨settings, status, line⟩ = (.ok ⟨⟩, ⟨settings, status ++ [what], line⟩) := rfl
  rw [busy, bind_of_ok hstart, Act.always, h]
  change (x, (⟨settings', (status ++ [what]).dropLast, line'⟩ : Desk κ β)) = _
  rw [dropLast_concat]

end Desk

/-! ### Replayed messages

Most simulated instruments answer from their memory alone: neither the clock nor the dice matter.
-/

namespace Simulated

open Act

variable {μ α β : Type}

/-- A computation that needs nothing but the memory, and changes it and what the instrument has to say. -/
def OnMemory (act : Act (Simulated μ) α) : Prop :=
  ∀ s s', s'.memory = s.memory → ∃ output, act s' = ((act s).1, { s' with memory := (act s).2.memory, output })

theorem onMemory_pure (a : α) : OnMemory (pure a : Act (Simulated μ) α) := by
  rintro ⟨⟩ ⟨⟩ rfl
  exact ⟨_, rfl⟩

theorem onMemory_lift (x : Outcome α) : OnMemory (lift x : Act (Simulated μ) α) := by
  rintro ⟨⟩ ⟨⟩ rfl
  exact ⟨_, rfl⟩

theorem onMemory_consult (f : μ → α) : OnMemory (consult f : Act (Simulated μ) α) := by
  rintro ⟨⟩ ⟨⟩ rfl
  exact ⟨_, rfl⟩

theorem onMemory_remember (f : μ → μ) : OnMemory (remember f) := by
  rintro ⟨⟩ ⟨⟩ rfl
  exact ⟨_, rfl⟩

theorem onMemory_say (v : Value) (ending : String) : OnMemory (say v ending : Act (Simulated μ) PUnit) := by
  rintro ⟨⟩ ⟨⟩ rfl
  exact ⟨_, rfl⟩

theorem OnMemory.bind {act : Act (Simulated μ) α} {f : α → Act (Simulated μ) β} (h : OnMemory act)
    (hf : ∀ a, OnMemory (f a)) : OnMemory (act >>= f) := by
  intro s s' hs
  obtain ⟨output, hs'⟩ := h s s' hs
  rcases hact : act s with ⟨e | a, t⟩
  · rw [hact] at hs'
    rw [bind_of_error hact, bind_of_error hs']
    exact ⟨_, rfl⟩
  · rw [hact] at hs'
    rw [bind_of_ok hact, bind_of_ok hs']
    exact hf a t _ rfl

variable [Simulation μ]

def reaction (text : String) (m : μ) : μ :=
  (receive text { memory := m }).2.memory

/-- The instrument after some messages. -/
def replay (start : Simulated μ) (log : List String) : Simulated μ :=
  log.foldl (fun s text => (receive text s).2) start

theorem replay_concat (start : Simulated μ) (log : List String) (text : String) :
    replay start (log ++ [text]) = (receive text (replay start log)).2 := by
  rw [replay, List.foldl_append]
  rfl

theorem onMemory_respondCommon (hreset : OnMemory (Simulation.reset : Act (Simulated μ) PUnit)) (text : String) :
    OnMemory (respondCommon text : Act (Simulated μ) (Option Value)) := by
  unfold respondCommon
  split
  · exact onMemory_pure _
  · exact onMemory_pure _
  · exact hreset.bind fun _ => onMemory_pure _
  · exact hreset.bind fun _ => onMemory_pure _
  · exact onMemory_pure _
  · exact onMemory_pure _

/-- A message is noted and changes the memory by its reaction. Besides, only what the instrument has to say changes. -/
theorem receive_eq {text : String} (h : OnMemory (Simulation.respond text : Act (Simulated μ) (Option Value)))
    (hreset : OnMemory (Simulation.reset : Act (Simulated μ) PUnit)) (s : Simulated μ) :
    ∃ x output, receive text s = (x, { s with memory := reaction text s.memory, log := s.log ++ [text], output }) := by
  have hnoted {body : Act (Simulated μ) PUnit} (hrecv : receive text = modify (noted text) >>= fun _ => body)
      (hbody : OnMemory body) : ∃ x output, receive text s =
        (x, { s with memory := reaction text s.memory, log := s.log ++ [text], output }) := by
    obtain ⟨output, hs⟩ := hbody (noted text { memory := s.memory }) (noted text s) rfl
    rw [reaction, hrecv]
    exact ⟨_, output, hs⟩
  refine hnoted rfl (h.bind fun x => ?_)
  cases x with
  | some v => exact onMemory_say _ _
  | none =>
    refine (onMemory_respondCommon hreset text).bind fun y => ?_
    cases y with
    | some v => exact onMemory_say _ _
    | none => exact onMemory_lift _

end Simulated

end LabBench
