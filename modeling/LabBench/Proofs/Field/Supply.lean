import LabBench.Instrument.FieldSupply.Simulation
import LabBench.Proofs.Field.Readings
import LabBench.Proofs.Wire.Reactions
/-!
# Messages to field supplies

A simulated field supply answers from its memory, so its log accounts for all that it remembers. From the desk, every
register is read as the number that is in it, and a message changes the memory by the reaction to it. The message that
turns the heater on is the dangerous one: it must not be sent unless the output field is the field of the magnet.
-/

namespace LabBench.FieldSupply

open Act Number Simulated LabBench.FieldSupply.Simulation List

/-! ### Reactions -/

theorem onMemory_obey (letter : Char) (argument : String) : OnMemory (obey letter argument) := by
  unfold obey
  split
  · refine (onMemory_lift _).bind fun n => (onMemory_remember _).bind fun _ => ?_
    dsimp only
    split
    · exact (onMemory_remember _).bind fun _ => onMemory_pure _
    · exact onMemory_pure _
  · exact (onMemory_remember _).bind fun _ => onMemory_pure _
  · exact (onMemory_lift _).bind fun _ => (onMemory_remember _).bind fun _ => onMemory_pure _
  · exact (onMemory_lift _).bind fun _ => (onMemory_remember _).bind fun _ => onMemory_pure _
  all_goals exact onMemory_pure _

theorem onMemory_answer (letter : Char) (argument : String) : OnMemory (answer letter argument) := by
  refine (onMemory_consult id).bind fun m => ?_
  split <;> exact onMemory_pure _

theorem onMemory_respond (text : String) : OnMemory (respond text) := by
  refine (onMemory_lift _).bind fun ⟨letter, argument, isQuery⟩ => ?_
  dsimp only
  split
  · exact onMemory_answer letter argument
  · exact onMemory_obey letter argument

theorem receive_eq (text : String) (s : Simulated Memory) : ∃ x output, receive text s =
    (x, { s with memory := reaction text s.memory, log := s.log ++ [text], output }) :=
  Simulated.receive_eq (onMemory_respond text) (onMemory_remember _) s

variable (m : Memory)

theorem reaction_hold : reaction "$A0" m = { m with activity := .int 0 } := rfl

theorem split_command (c : Char) (argument : String) :
    split (String.ofList ['$', c] ++ argument) = .ok (c, argument, false) := by
  rw [split, String.toList_append, String.toList_ofList]
  change Except.ok (c, String.ofList argument.toList, false) = _
  rw [String.ofList_toList]

theorem number_plain (x : Float) : number (plain x) = .ok x := by
  rw [number, Value.toFloat, (tells_plain x).read]

theorem respond_command (c : Char) (argument : String) (s : Simulated Memory) :
    respond (String.ofList ['$', c] ++ argument) s = obey c argument s := by
  unfold respond
  rw [split_command]
  rfl

theorem command_ne_heat {c : Char} (hc : c ≠ 'H') (argument : String) : String.ofList ['$', c] ++ argument ≠ "$H1" := by
  intro htext
  have hlist := congrArg String.toList htext
  rw [String.toList_append, String.toList_ofList] at hlist
  exact hc (cons.inj (cons.inj hlist).2).1

theorem respond_setPoint (x : Float) (s : Simulated Memory) : LabBench.Simulation.respond ("$J" ++ plain x) s =
    (.ok (some .none), { s with memory := { s.memory with setPoint := x } }) := by
  refine (respond_command 'J' (plain x) s).trans ?_
  change (lift (number (plain x)) >>= _) s = _
  rw [number_plain]
  rfl

theorem reaction_setPoint (x : Float) : reaction ("$J" ++ plain x) m = { m with setPoint := x } := by
  rw [reaction, receive_of_none (respond_setPoint x _)]
  rfl

/-- A rate is remembered if it can be read. -/
theorem exists_reaction_sweepRate (argument : String) : ∃ rate,
    reaction ("$T" ++ argument) m = { m with sweepRate := rate } ∧
    ∀ s : Simulated Memory, (receive ("$T" ++ argument) s).1 = .ok ⟨⟩ → number argument = .ok rate := by
  have hresp (s : Simulated Memory) : LabBench.Simulation.respond ("$T" ++ argument) s =
      (lift (number argument) >>= fun x => do
        remember fun m => { m with sweepRate := x }
        return some .none) s :=
    respond_command 'T' argument s
  cases hnum : number argument with
  | error e =>
    rw [hnum] at hresp
    refine ⟨m.sweepRate, ?_, fun s hrecv => ?_⟩
    · rw [reaction, receive_of_error (hresp _)]
      rfl
    · rw [receive_of_error (hresp _)] at hrecv
      cases hrecv
  | ok x =>
    rw [hnum] at hresp
    refine ⟨x, ?_, fun _ _ => rfl⟩
    rw [reaction, receive_of_none (hresp _)]
    rfl

/-! ### Answers -/

/-- The supply stands still or moves, in its plain mode. -/
structure Stands (isMoving : Bool) (m : Memory) : Prop where
  activity : m.activity = .int (if isMoving then 1 else 0)
  mode : m.mode = .int 0

/-- What the supply says about itself then. -/
def statusOf (isMoving isHeated : Bool) : Status where
  system := 0
  limits := 0
  activity := if isMoving then 1 else 0
  remote := 9
  heater := if isHeated then 1 else 0
  mode := 9
  sweep := 0

variable {m} {isMoving : Bool}

theorem Stands.ofAnswer (h : Stands isMoving m) :
    Status.ofAnswer (.text (heard Memory (statusText m))) = .ok (statusOf isMoving m.isHeated) := by
  rw [statusText, h.activity, h.mode]
  generalize m.isHeated = isHeated
  cases isMoving <;> cases isHeated <;> decide +kernel

theorem heard_register (x : Float) : heard Memory ("R" ++ plain x) = "R" ++ plain x := by
  have hblank : ∀ c ∈ ("R" ++ plain x).toList, Text.isBlank c = false := by
    rw [String.toList_append, forall_mem_append]
    refine ⟨by simp [Text.isBlank], fun c hc => ?_⟩
    by_contra hblank
    have hspace := Text.isSpace_of_isBlank (Bool.eq_true_of_not_eq_false hblank)
    rw [(tells_plain x).isSpace c hc] at hspace
    cases hspace
  obtain ⟨c, hc⟩ : ∃ c, ("R" ++ plain x).toList.getLast? = some c := by
    rw [String.toList_append]
    exact Option.isSome_iff_exists.mp (by simp)
  exact heard_of_last hc (hblank c (mem_of_getLast? hc)) rfl

/-! ### The desk -/

/-- The output field is the field of the magnet, and a number. -/
structure Balanced (m : Memory) : Prop where
  output : m.output = m.persistent
  isNumber : m.persistent.isNaN = false

/-- The log of the supply, from `start` on, accounts for its memory, and whenever the heater was turned on, the output
field was the field of the magnet. The settings of the desk and the memory of the supply are given. -/
structure Follows (start : Simulated Memory) (settings : Settings) (m : Memory)
    (d : Desk Settings (Simulated Memory)) : Prop where
  settings_eq : d.settings = settings
  memory_eq : d.line.memory = m
  answers_eq : d.line.answers = none
  replay_eq : (replay start d.line.log).memory = m
  balanced : ∀ before after, d.line.log = before ++ "$H1" :: after → Balanced (replay start before).memory

variable {start : Simulated Memory} {settings : Settings} {d : Desk Settings (Simulated Memory)}
  (h : Follows start settings m d)

include h

theorem Follows.copy {d' : Desk Settings (Simulated Memory)} {settings' : Settings}
    (hset : d'.settings = settings') (hline : d'.line.memory = d.line.memory ∧
      d'.line.answers = d.line.answers ∧ d'.line.log = d.line.log) : Follows start settings' m d' := by
  obtain ⟨hmem, hans, hlog⟩ := hline
  refine ⟨hset, hmem.trans h.memory_eq, hans.trans h.answers_eq, ?_, ?_⟩
  · rw [hlog]
    exact h.replay_eq
  · rw [hlog]
    exact h.balanced

theorem Follows.noted {text : String} (hheat : text = "$H1" → Balanced m)
    (status : List String) (output : Option String) : Follows start settings (reaction text m)
      ⟨d.settings, status, { d.line with memory := reaction text m, log := d.line.log ++ [text], output }⟩ where
  settings_eq := h.settings_eq
  memory_eq := rfl
  answers_eq := h.answers_eq
  replay_eq := by
    obtain ⟨x, output, hrecv⟩ := receive_eq text (replay start d.line.log)
    rw [replay_concat, hrecv]
    exact congrArg (reaction text) h.replay_eq
  balanced before after hlog := by
    rcases eq_nil_or_concat after with rfl | ⟨after', last, rfl⟩
    · obtain ⟨rfl, htext⟩ := append_inj' hlog rfl
      rw [h.replay_eq]
      exact hheat (cons.inj htext).1
    · rw [concat_eq_append, ← cons_append, ← append_assoc] at hlog
      exact h.balanced before after' (append_inj' hlog rfl).1

/-- A message that turns the heater on must wait until the output field is the field of the magnet. -/
theorem Follows.exists_write (text : String) (hheat : text = "$H1" → Balanced m) :
    ∃ d', Desk.write text d = ((receive text d.line).1, d') ∧ Follows start settings (reaction text m) d' := by
  obtain ⟨x, output, hrecv⟩ := receive_eq text d.line
  rw [h.memory_eq] at hrecv
  rw [hrecv]
  exact ⟨_, Desk.write_eq hrecv d.settings d.status, h.noted hheat d.status output⟩

theorem Follows.tell (text : String) (hheat : text = "$H1" → Balanced m)
    (hresp : ∀ s : Simulated Memory, s.memory = m → ∃ s', LabBench.Simulation.respond text s = (.ok (some .none), s')) :
    ∃ d', Desk.write text d = (.ok ⟨⟩, d') ∧ Follows start settings (reaction text m) d' := by
  obtain ⟨s', hs'⟩ := hresp (Simulated.noted text d.line) h.memory_eq
  have hwrite := h.exists_write text hheat
  rwa [receive_of_none hs'] at hwrite

/-- A rate that is sent without a fault is the one that is remembered. -/
theorem Follows.tellRate (argument : String) : ∃ x d' rate, Desk.write ("$T" ++ argument) d = (x, d') ∧
    Follows start settings { m with sweepRate := rate } d' ∧ (x = .ok ⟨⟩ → number argument = .ok rate) := by
  have hne : "$T" ++ argument ≠ "$H1" := command_ne_heat (by decide) _
  obtain ⟨d', hwrite, h'⟩ := h.exists_write ("$T" ++ argument) fun htext => absurd htext hne
  obtain ⟨rate, hreaction, hread⟩ := exists_reaction_sweepRate m argument
  rw [hreaction] at h'
  exact ⟨_, d', rate, hwrite, h', hread d.line⟩

theorem Follows.ask (text : String) {w : String} (hne : text ≠ "$H1")
    (hresp : ∀ s : Simulated Memory, s.memory = m → LabBench.Simulation.respond text s = (.ok (some (.text w)), s)) :
    ∃ d', Desk.ask text d = (.ok (.text (heard Memory w)), d') ∧ Follows start settings m d' := by
  have hreaction : reaction text m = m := by rw [reaction, receive_of_text (hresp _ rfl)]; rfl
  have hd := h.noted (fun htext => absurd htext hne) d.status (some (w ++ LabBench.Simulation.ending Memory))
  rw [hreaction] at hd
  obtain rfl := h.memory_eq
  have hqry := query_of_text (hresp (Simulated.noted text d.line) rfl) h.answers_eq
  exact ⟨_, bind_of_ok (Desk.onLine_eq hqry d.settings d.status), hd⟩

/-! ### Readings -/

theorem Follows.status (hm : Stands isMoving m) :
    ∃ d', status d = (.ok (statusOf isMoving m.isHeated), d') ∧ Follows start settings m d' := by
  obtain ⟨d', hask, hd'⟩ := h.ask "X" (w := statusText m) (by decide) (by rintro s rfl; rfl)
  refine ⟨d', ?_, hd'⟩
  rw [FieldSupply.status, bind_of_ok hask]
  exact congrArg (·, d') hm.ofAnswer

theorem Follows.activity (hm : Stands isMoving m) :
    ∃ d', activity d = (.ok (if isMoving then "to_set" else "hold"), d') ∧ Follows start settings m d' := by
  obtain ⟨d', hstat, hd'⟩ := h.status hm
  refine ⟨d', ?_, hd'⟩
  rw [FieldSupply.activity, bind_of_ok hstat]
  cases isMoving <;> rfl

theorem Follows.isHeaterOn (hm : Stands isMoving m) :
    ∃ d', isHeaterOn d = (.ok m.isHeated, d') ∧ Follows start settings m d' := by
  obtain ⟨d', hstat, hd'⟩ := h.status hm
  refine ⟨d', ?_, hd'⟩
  rw [FieldSupply.isHeaterOn, bind_of_ok hstat]
  cases m.isHeated <;> rfl

section

variable (text : String) {x : Float} (hne : text ≠ "$H1") (hresp : ∀ s : Simulated Memory, s.memory = m →
  LabBench.Simulation.respond text s = (.ok (some (.text ("R" ++ plain x))), s))

include hne hresp

theorem Follows.askNumber : ∃ d', askNumber text d = (.ok (.real x), d') ∧ Follows start settings m d' := by
  obtain ⟨d', hask, hd'⟩ := h.ask text hne hresp
  refine ⟨d', ?_, hd'⟩
  have hdrop : String.ofList (("R" ++ plain x).toList.drop 1) = plain x := by
    rw [String.toList_append]
    exact String.ofList_toList
  rw [FieldSupply.askNumber, bind_of_ok hask, heard_register]
  dsimp only
  rw [hdrop]
  refine lift_bind_of_ok (number_plain x) _ d'

theorem Follows.askField :
    ∃ scale d', askField text d = (.ok ⟨x, Quantity.fieldDimension, "T", scale⟩, d') ∧ Follows start settings m d' := by
  obtain ⟨d', hask, hd'⟩ := h.askNumber text hne hresp
  obtain ⟨scale, hreading⟩ := Quantity.exists_ofReading_tesla x
  refine ⟨scale, d', ?_, hd'⟩
  rw [FieldSupply.askField, bind_of_ok hask, hreading]
  rfl

end

theorem Follows.outputField : ∃ scale d',
    outputField d = (.ok ⟨m.output, Quantity.fieldDimension, "T", scale⟩, d') ∧ Follows start settings m d' :=
  h.askField "R7" (by decide) (by rintro s rfl; rfl)

theorem Follows.persistentField : ∃ scale d',
    persistentField d = (.ok ⟨m.persistent, Quantity.fieldDimension, "T", scale⟩, d') ∧ Follows start settings m d' :=
  h.askField "R18" (by decide) (by rintro s rfl; rfl)

end LabBench.FieldSupply
