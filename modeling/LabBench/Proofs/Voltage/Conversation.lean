import LabBench.Instrument.VoltageSource.Simulation
import LabBench.Proofs.Wire.Digits
import LabBench.Proofs.Wire.Reactions
/-!
# Conversations with converters

A voltage source and a simulated one are the two ends of a conversation. Every message that the former sends is
understood by the latter, and every reply is the expected one. What such a conversation does is told by the settings on
this side of the line and the registers on the other one.
-/

namespace LabBench

open Hex List
open String hiding append_assoc length_append

namespace VoltageSource

open Act LabBench.VoltageSource.Simulation

variable {m : Model} {rest : List Char} {n : Nat}

/-- The settings on this side of the line and the registers on the other one. -/
def ends (d : Desk Settings (Simulated (Memory m))) : Settings × Memory m :=
  (d.settings, d.line.memory)

variable {settings : Settings} {memory memory' : Memory m}

theorem yields_exchange (digits : String) {message expected : String}
    (h : Yields Simulated.memory (reply (grouped 2 (encode message.toList))) memory (some digits) memory')
    (hdigs : encode digits.toList = encode expected.toList) :
    Yields ends (exchange message expected) (settings, memory) ⟨⟩ (settings, memory') := by
  rintro ⟨settings, status, line⟩ hd
  obtain ⟨rfl, rfl⟩ := Prod.mk.inj hd
  obtain ⟨text, htext, htoList⟩ : ∃ text, ofList (encode message.toList) = text ∧
      encode message.toList = text.toList := ⟨_, rfl, toList_ofList.symm⟩
  rw [htoList] at h
  obtain ⟨t, hreply, ht⟩ := h (Simulated.noted text line) rfl
  have hresp : LabBench.Simulation.respond text (Simulated.noted text line) =
      (.ok (some (.text (ofList (encode digits.toList)))), t) := bind_of_ok hreply
  have hwrite := Desk.write_eq (Simulated.receive_of_text hresp) settings status
  have hread : (Desk.onLine Line.readRaw : Use (Simulated (Memory m)) (Option String))
      ⟨settings, status, { t with output := some (ofList (encode digits.toList) ++ "") }⟩ =
        (.ok (some (ofList (encode digits.toList) ++ "")), _) := rfl
  -- what was said is what was expected
  have hraw : grouped 2 (ofList (encode digits.toList) ++ "").toList = grouped 2 (encode expected.toList) := by
    rw [append_empty, toList_ofList, hdigs]
  have hask : askEncoded message (some expected) ⟨settings, status, line⟩ = (.ok (grouped 2 (encode expected.toList)),
        ⟨settings, status, { t with output := some (ofList (encode digits.toList) ++ "") }⟩) := by
    rw [askEncoded, htext]
    refine (bind_of_ok hwrite).trans ((bind_of_ok hread).trans ?_)
    simp only [hraw, bne_self_eq_false, Bool.false_eq_true, if_false]
    rfl
  exact ⟨_, discard_of_ok hask, Prod.ext rfl ht⟩

/-! ### Replies -/

theorem grouped_encode_fixed : ∀ text ∈ stateQuestion :: idleMessages, grouped 2 (encode text.toList) = text := by
  decide +kernel

theorem yields_reply_idle {text : String} (h : text ∈ idleMessages) (memory : Memory m) :
    Yields Simulated.memory (reply text) memory (some standardReply) memory := by
  unfold reply
  rw [if_pos (contains_iff_mem.mpr h)]
  exact .pure _ _ _

theorem yields_reply_state (memory : Memory m) :
    Yields Simulated.memory (reply stateQuestion) memory (some (Model.stateReply .sixteen)) memory := by
  unfold reply
  rw [if_neg (by decide), if_pos (beq_self_eq_true stateQuestion)]
  exact .pure _ _ _

/-- A start of messages that reaches the other end as it is, and that no fixed message has. -/
structure Opens (start : String) : Prop where
  even : (start.toList.filterMap digit?).length % 4 = 0
  ne_nil : encode start.toList ≠ []
  grouped : grouped 2 (encode start.toList) ++ " " = start
  other : ∀ w ∈ stateQuestion :: idleMessages, start.toList.isPrefixOf w.toList = false

theorem opens_choice : Opens "0000 0010 000c 0111 0280 0000 00ff " := by
  constructor <;> decide +kernel

theorem opens_command : Opens "0000 0014 0010 0111 0260 0000 0003 " := by
  constructor <;> decide +kernel

theorem reply_of_start {start text : String} (hstart : Opens start) (h : text.toList = start.toList ++ rest) :
    (reply text : Act (Simulated (Memory m)) _) = if choiceStart.isPrefixOf text.toList then do
        return some (← replyToChoice (text.toList.drop choiceStart.length))
      else if commandStart.isPrefixOf text.toList then do
        return some (← replyToCommand (text.toList.drop commandStart.length)) else return none := by
  have hne : ∀ w ∈ stateQuestion :: idleMessages, text ≠ w := by
    rintro w hw rfl
    have hpre := hstart.other text hw
    rw [← Bool.not_eq_true, isPrefixOf_iff_prefix, h] at hpre
    exact hpre (prefix_append _ _)
  have hidle : ¬idleMessages.contains text = true := by
    rw [contains_iff_mem]
    exact fun hmem => hne text (mem_cons_of_mem _ hmem) rfl
  have hstate : ¬(text == stateQuestion) = true := by
    rw [beq_iff_eq]
    exact hne stateQuestion mem_cons_self
  unfold reply
  dsimp only
  rw [if_neg hidle, if_neg hstate]

theorem reply_eq_replyToChoice {text : String} (h : text.toList = choiceStart ++ rest) :
    (reply text : Act (Simulated (Memory m)) _) = (do return some (← replyToChoice rest)) := by
  have hpre : choiceStart.isPrefixOf text.toList = true := by
    rw [ isPrefixOf_iff_prefix, h]
    exact prefix_append _ _
  rw [reply_of_start opens_choice h, if_pos hpre, h, drop_left]

theorem reply_eq_replyToCommand {text : String} (h : text.toList = commandStart ++ rest) :
    (reply text : Act (Simulated (Memory m)) _) = (do return some (← replyToCommand rest)) := by
  have hpre : commandStart.isPrefixOf text.toList = true := by
    rw [ isPrefixOf_iff_prefix, h]
    exact prefix_append _ _
  have hchoice : ¬choiceStart.isPrefixOf text.toList = true := by
    rw [ isPrefixOf_iff_prefix, h]
    intro hchoice
    have hlen : choiceStart.length ≤ commandStart.length := by decide
    exact absurd (prefix_of_prefix_length_le hchoice (prefix_append _ _) hlen) (by decide)
  rw [reply_of_start opens_command h, if_neg hchoice, if_pos hpre, h, drop_left]

/-- What stands at the start of a message reaches the other end as it is. -/
theorem toList_grouped_encode {start : String} (h : Opens start) {more data : List Char}
    (hmore : encode more = data) (hdata : data ≠ []) :
    (grouped 2 (encode (start.toList ++ more))).toList = start.toList ++ (grouped 2 data).toList := by
  have heven := h.even
  have hlen : 2 ∣ (encode start.toList).length := by
    rw [encode, Hex.length_bytes]
    omega
  rw [encode_append (by omega), hmore, grouped_append two_pos hlen h.ne_nil hdata, h.grouped, toList_append]

/-! ### The choice of an outlet -/

theorem number_digitChar (h : n < 256) : number .sixteen (n / 16).digitChar (n % 16).digitChar = .ok n := by
  have hlow : n % 16 < 16 := Nat.mod_lt n (by omega)
  have hhigh : n / 16 < 16 := by omega
  have hn : 16 * (n / 16) + n % 16 = n := Nat.div_add_mod n 16
  simp only [number, digit?_digitChar hhigh, digit?_digitChar hlow, base, hhigh, hlow, hn, decide_true,
    Bool.and_self, if_true]

theorem yields_replyToChoice (h : n < 256) (memory : Memory .sixteen) :
    Yields Simulated.memory (replyToChoice [(n / 16).digitChar, (n % 16).digitChar, '0', '0']) memory standardReply
      { memory with chosen := some n } := by
  rintro s rfl
  refine ⟨{ s with memory := { s.memory with chosen := some n } }, ?_, rfl⟩
  unfold replyToChoice
  simp only [number_digitChar h]
  rfl

/-- The other end takes the number of the outlet out of the message. -/
theorem yields_exchange_choice (h : n < 256) {number : String} (hnum : Text.hex 2 n = number)
    (settings : Settings) (memory : Memory .sixteen) :
    Yields ends (exchange s!"0000 0010 000c 0111 0280 0000 00ff {number} 00" standardReply) (settings, memory) ⟨⟩
      (settings, { memory with chosen := some n }) := by
  have hdigs : encode (number.toList ++ " 00".toList) = [Char.ofNat n, Char.ofNat 0] := by
    have hlen : (number.toList.filterMap digit?).length = 2 := by
      rw [← hnum, filterMap_hex 1 (by omega), length_nibbles]
    rw [encode_append (by omega), ← hnum, encode_hex_byte h]
    rfl
  have hpair : (grouped 2 [Char.ofNat n, Char.ofNat 0]).toList =
      [(n / 16).digitChar, (n % 16).digitChar, '0', '0'] := by
    rw [grouped_pair, toList_append, toNat_ofNat_byte h, toList_hex_byte h]
    rfl
  have htext : (grouped 2 (encode s!"0000 0010 000c 0111 0280 0000 00ff {number} 00".toList)).toList =
      choiceStart ++ [(n / 16).digitChar, (n % 16).digitChar, '0', '0'] := by
    rw [← hpair, String.toList_append, String.toList_append, append_assoc]
    exact toList_grouped_encode opens_choice hdigs (by simp)
  refine yields_exchange standardReply ?_ rfl
  rw [reply_eq_replyToChoice htext]
  exact (yields_replyToChoice h memory).bind (.pure _ _ _)

theorem yields_exchange_idle {message : String} (h : message ∈ idleMessages) (settings : Settings)
    (memory : Memory m) : Yields ends (exchange message standardReply) (settings, memory) ⟨⟩ (settings, memory) := by
  refine yields_exchange standardReply ?_ rfl
  rw [grouped_encode_fixed message (mem_cons_of_mem _ h)]
  exact yields_reply_idle h memory

theorem yields_exchange_state (settings : Settings) (memory : Memory m) :
    Yields ends (exchange stateQuestion (Model.stateReply .sixteen)) (settings, memory) ⟨⟩ (settings, memory) := by
  refine yields_exchange (Model.stateReply .sixteen) ?_ rfl
  rw [grouped_encode_fixed stateQuestion mem_cons_self]
  exact yields_reply_state memory

theorem yields_choose {p : Outlet} (hnum : p.number < 256) (hrate : p.rate = .int 100) (settings : Settings)
    (memory : Memory .sixteen) :
    Yields ends (choose .sixteen p) (settings, memory) ⟨⟩ (settings, { memory with chosen := some p.number }) := by
  have hdigs : fourDigits p.rate = .ok "0064" := by
    rw [hrate]
    rfl
  unfold choose
  refine (yields_exchange_state settings memory).bind ?_
  refine (yields_exchange_idle (by decide) settings memory).bind ?_
  refine (yields_exchange_idle (by decide) settings memory).bind ?_
  refine (yields_exchange_choice hnum rfl settings memory).bind ?_
  refine (yields_exchange_state settings _).bind ?_
  refine (Yields.lift ends _ hdigs).bind ?_
  exact yields_exchange_idle (by decide) settings _

/-! ### Commands -/

section Commands

open LabBench.VoltageSource.Converter

theorem toNat_flip {c : Char} (h : c.toNat < 256) : (flip c).toNat = 255 - c.toNat :=
  toNat_ofNat_byte (by omega)

theorem flip_flip {c : Char} (h : c.toNat < 256) : flip (flip c) = c := by
  have hback : 255 - (255 - c.toNat) = c.toNat := by omega
  rw [Converter.flip, toNat_flip h, hback, Char.ofNat_toNat]

theorem isBytes_padded {data : List Char} (h : IsBytes data) : IsBytes (padded data) := by
  refine IsBytes.append (fun c hc => ?_) fun c hc => ?_
  · obtain ⟨d, hd, rfl⟩ := mem_map.mp hc
    have := h d hd
    rw [toNat_flip this]
    omega
  · rw [eq_of_mem_replicate hc]
    decide

theorem flatMap_flip {data : List Char} (h : IsBytes data) :
    (data.map Converter.flip).flatMap (fun c => bitsOfByte (Converter.flip c)) = data.flatMap bitsOfByte := by
  induction data with
  | nil => rfl
  | cons c data ih =>
    rw [map_cons, flatMap_cons, flatMap_cons, flip_flip (h c mem_cons_self), ih fun d hd => h d (mem_cons_of_mem c hd)]

/-- What the other end says to a command of so many bytes. -/
def answer (size : Nat) : String :=
  let set := join (replicate size "ff")
  let unset := join (replicate (4 - size) "00")
  let count := Text.hex 2 size
  s!"0000 0014 0010 0100 0000 0002 {count}00 0000 {set}{unset}"

def expectedAnswer (size : Nat) : String :=
  let count := Text.hex 2 size
  let reply := frame (join (replicate size "00"))
  s!"0000 0014 0010 0100 0000 0002 {count} 00 0000 {reply}"

theorem encode_answer {size : Nat} (hpos : 0 < size) (hle : size ≤ 4) :
    encode (answer size).toList = encode (expectedAnswer size).toList := by
  have hall : ∀ size < 5, 0 < size → encode (answer size).toList = encode (expectedAnswer size).toList := by
    decide +kernel
  exact hall size (by omega) hpos

variable {data : List Char} {c : Command} {memory memory' : Memory .sixteen}

theorem length_padded_of_le (hpos : data ≠ []) (hle : data.length ≤ 4) : (padded data).length = 4 := by
  have hlen := length_pos_iff.mpr hpos
  simp only [padded, length_append, List.length_map, List.length_replicate, missing]
  omega

theorem length_grouped (hbytes : IsBytes data) (h : data.length = 4) : (grouped 2 data).toList.length = 9 := by
  have hhex (c : Char) (hc : c ∈ data) : (Text.hex 2 c.toNat).toList.length = 2 := by
    rw [toList_hex_byte (hbytes c hc)]
    rfl
  obtain ⟨c₁, c₂, c₃, c₄, rfl⟩ := length_eq_four.mp h
  have hspl : grouped 2 ([c₁, c₂] ++ [c₃, c₄]) = grouped 2 [c₁, c₂] ++ " " ++ grouped 2 [c₃, c₄] :=
    grouped_append two_pos (by simp) (by simp) (by simp)
  rw [show [c₁, c₂, c₃, c₄] = [c₁, c₂] ++ [c₃, c₄] from rfl, hspl, grouped_pair, grouped_pair]
  simp only [String.toList_append, length_append]
  rw [hhex c₁ (by simp), hhex c₂ (by simp), hhex c₃ (by simp), hhex c₄ (by simp)]
  rfl

theorem yields_replyToCommand (hbytes : IsBytes data) (hpos : data ≠ []) (hle : data.length ≤ 4)
    (hcmd : Command.ofBits (data.flatMap bitsOfByte) = .ok c)
    (hobey : Yields Simulated.memory (obey c) memory ⟨⟩ memory') :
    Yields Simulated.memory (replyToCommand ((data.length / 16).digitChar :: (data.length % 16).digitChar ::
      '0' :: '0' :: ' ' :: (grouped 2 (padded data)).toList)) memory (answer data.length) memory' := by
  have hlen := length_grouped (isBytes_padded hbytes) (length_padded_of_le hpos hle)
  have hnum := number_digitChar (show data.length < 256 by omega)
  have hread : (encode ((grouped 2 (padded data)).toList.take 9)).take data.length = data.map Converter.flip := by
    rw [take_of_length_le hlen.le, encode_grouped two_pos (isBytes_padded hbytes), padded,
      take_left' (length_map _)]
  have hbits : Command.ofBits (((encode ((grouped 2 (padded data)).toList.take 9)).take data.length).flatMap
      fun c => bitsOfByte (Converter.flip c)) = .ok c := by
    rw [hread, flatMap_flip hbytes, hcmd]
  unfold replyToCommand
  simp only [hlen]
  rw [if_neg (lt_irrefl 9)]
  refine (Yields.lift _ _ hnum).bind ?_
  exact (Yields.lift _ _ hbits).bind (hobey.bind (.pure _ _ _))

theorem yields_exchange_command {message count sent expected : String} (hdata : encode message.toList = data)
    (hbytes : IsBytes data) (hpos : data ≠ []) (hle : data.length ≤ 4) (hcnt : Text.hex 2 data.length = count)
    (hsent : frame message = sent) (hexpect : expectedAnswer data.length = expected)
    (hcmd : Command.ofBits (data.flatMap bitsOfByte) = .ok c)
    (hobey : Yields Simulated.memory (obey c) memory ⟨⟩ memory') (settings : Settings) :
    Yields ends (exchange s!"0000 0014 0010 0111 0260 0000 0003 {count} 00 {sent}" expected) (settings, memory) ⟨⟩
      (settings, memory') := by
  have hlt : data.length < 256 := by omega
  have hframe : sent = grouped 2 (padded data) := by rw [← hsent, frame, hdata]
  have hdigs : encode (count.toList ++ (" 00 ".toList ++ sent.toList)) =
      [Char.ofNat data.length, Char.ofNat 0] ++ padded data := by
    have hlen : (count.toList.filterMap digit?).length = 2 := by
      rw [← hcnt, filterMap_hex 1 (by omega), length_nibbles]
    have hzero : encode " 00 ".toList = [Char.ofNat 0] := rfl
    rw [encode_append (by omega), encode_append (by decide), ← hcnt, encode_hex_byte hlt, hzero, hframe,
      encode_grouped two_pos (isBytes_padded hbytes)]
    rfl
  have hgrps : (grouped 2 ([Char.ofNat data.length, Char.ofNat 0] ++ padded data)).toList =
      (data.length / 16).digitChar :: (data.length % 16).digitChar :: '0' :: '0' :: ' ' ::
        (grouped 2 (padded data)).toList := by
    have hne : padded data ≠ [] := length_pos_iff.mp (by rw [length_padded_of_le hpos hle]; omega)
    rw [grouped_append two_pos (by simp) (by simp) hne, grouped_pair, toList_append,
      toList_append, toList_append, toNat_ofNat_byte hlt, toList_hex_byte hlt]
    rfl
  have htext : (grouped 2 (encode s!"0000 0014 0010 0111 0260 0000 0003 {count} 00 {sent}".toList)).toList =
      commandStart ++ (data.length / 16).digitChar :: (data.length % 16).digitChar :: '0' :: '0' :: ' ' ::
        (grouped 2 (padded data)).toList := by
    rw [← hgrps]
    simp only [String.toList_append, append_assoc]
    exact toList_grouped_encode opens_command hdigs (by simp)
  have hans : encode (answer data.length).toList = encode expected.toList := by
    rw [← hexpect]
    exact encode_answer (length_pos_iff.mpr hpos) hle
  refine yields_exchange (answer data.length) ?_ hans
  rw [reply_eq_replyToCommand htext]
  exact (yields_replyToCommand hbytes hpos hle hcmd hobey).bind (.pure _ _ _)

theorem outlet_eq {β : Type} {d : Desk Settings β} {number : Nat} {p : Outlet} (h : d.settings[number]? = some p) :
    outlet number d = (.ok p, d) := by
  have hcons : (Desk.consult id : Use β Settings) d = (.ok d.settings, d) := rfl
  refine (bind_of_ok hcons).trans ?_
  simp only [h]
  rfl

theorem yields_outlet {settings : Settings} {number : Nat} {p : Outlet} (h : settings[number]? = some p)
    (memory : Memory m) : Yields ends (outlet number) (settings, memory) p (settings, memory) := by
  rintro d hd
  obtain ⟨rfl, rfl⟩ := Prod.mk.inj hd
  exact ⟨d, outlet_eq h, rfl⟩

/-- A whole conversation does what the converter of the outlet does. -/
theorem yields_converse {settings : Settings} {number : Nat} {p : Outlet} {message : String}
    (hp : settings[number]? = some p) (hnum : p.number < 256) (hrate : p.rate = .int 100)
    (hdata : encode message.toList = data) (hbytes : IsBytes data) (hpos : data ≠ []) (hle : data.length ≤ 4)
    (hcmd : Command.ofBits (data.flatMap bitsOfByte) = .ok c)
    (hobey : Yields Simulated.memory (obey c) { memory with chosen := some p.number } ⟨⟩ memory') :
    Yields ends (converse .sixteen number message) (settings, memory) ⟨⟩ (settings, memory') := by
  have hsize : Hex.length message.toList = data.length := by rw [Hex.length, hdata]
  unfold converse
  simp only [hsize]
  rw [if_neg (by omega)]
  refine (yields_outlet hp memory).bind ?_
  refine (yields_choose hnum hrate settings memory).bind ?_
  exact yields_exchange_command hdata hbytes hpos hle rfl rfl rfl hcmd hobey settings

end Commands

end VoltageSource

end LabBench
