/-
# System.LearnSend -- a capture goes to the backend and comes back as it was

A pulse train crosses the system twice: the firmware's encoder writes it, the
backend parses and stores it, prints two of its members, and the firmware's
reassembler and decoder read those.  Each link has its own module; here they are
joined.

* `parse_messageText`: the text of a message is the object `learnedSignal`.
* `commandPayload_learnedSignal`: what is sent for it is `commandText`.
* `receive_commandText`: whatever the fragments, that payload is transmitted.
* `learn_then_send` puts them around the backend's runs.
-/
import IrHub.Backend.Server
import IrHub.Firmware.Encoder
import IrHub.Firmware.Inbound
import IrHub.Firmware.Publish
import IrHub.Theory.JsonText

namespace IrHub.System.LearnSend

set_option autoImplicit false

open IrHub.Theory IrHub.Theory.Access IrHub.Firmware IrHub.Firmware.JsonHelper
open IrHub.Firmware.Encoder IrHub.Firmware.Inbound
open IrHub.Firmware.Publish IrHub.Backend.Store IrHub.Backend.Server
open IrHub.Theory.Double (IsFinite finite_natCast)

/-! ## The stored signal -/

def pulseNumbers (pulses : List UInt16) : List Json :=
  (pulses.map UInt16.toNat).map fun (k : Nat) => .num k

/-- The object a message's text denotes. -/
def learnedSignal (msg : IrMessage) : Json :=
  .obj [(bytes "carrier_freq", .num msg.carrierFreq.toNat),
    (bytes "frame_count", .num msg.frameCount.toNat),
    (bytes "truncated", .bool msg.truncated),
    (bytes "pulses", .arr (pulseNumbers msg.pulses))]

/-- The text member by member: a quoted key, a colon, a value, a comma. -/
theorem messageText_members (msg : IrMessage) :
    messageText msg = 123 :: 34 :: (bytes "carrier_freq" ++ 34 :: 58 ::
      (decimal msg.carrierFreq.toNat ++ 44 :: 34 :: (bytes "frame_count" ++ 34 :: 58 ::
        (decimal msg.frameCount.toNat ++ 44 :: 34 :: (bytes "truncated" ++ 34 :: 58 ::
          (bytes (if msg.truncated then "true" else "false") ++ 44 :: 34 ::
            (bytes "pulses" ++ 34 :: 58 :: 91 ::
              (commaSep ((msg.pulses.map UInt16.toNat).map decimal) ++ 93 :: [125]))))))) ) := by
  have carrier : bytes "\x7b\"carrier_freq\":" = 123 :: 34 :: bytes "carrier_freq" ++ [34, 58] := by
    decide
  have frames : bytes ",\"frame_count\":" = 44 :: 34 :: bytes "frame_count" ++ [34, 58] := by decide
  have flag : bytes ",\"truncated\":" = 44 :: 34 :: bytes "truncated" ++ [34, 58] := by decide
  have pulses : bytes ",\"pulses\":[" = 44 :: 34 :: bytes "pulses" ++ [34, 58, 91] := by decide
  have closing : bytes "]\x7d" = [93, 125] := by decide
  simp only [messageText, header, carrier, frames, flag, pulses, closing, List.map_map,
    Function.comp_def, List.append_assoc, List.cons_append, List.nil_append]

theorem pulses_small (pulses : List UInt16) {bound : Nat} (large : 2 ^ 16 ≤ bound) :
    ∀ n ∈ pulses.map UInt16.toNat, n ≤ bound := by
  intro n member
  obtain ⟨pulse, -, rfl⟩ := List.mem_map.mp member
  exact pulse.toNat_lt.le.trans large

/-- **The backend reads the text of a capture as its four fields.** -/
theorem parse_messageText (msg : IrMessage) :
    Json.parse (messageText msg) = some (learnedSignal msg) := by
  have long : msg.pulses.length + 4 ≤ (messageText msg).length := by
    have length := messageText_length msg
    have digits : msg.pulseCount - 1 ≤ textDigits msg := by
      unfold textDigits
      omega
    simp only [IrMessage.pulseCount] at digits
    omega
  obtain ⟨fuel, enough, budget⟩ : ∃ fuel, msg.pulses.length < fuel ∧
      2 * (messageText msg).length + 2 = fuel + 6 :=
    ⟨2 * (messageText msg).length + 2 - 6, by omega, by omega⟩
  have plain : ∀ key ∈ [bytes "carrier_freq", bytes "frame_count", bytes "truncated",
      bytes "pulses"], ∀ c ∈ key, c ≠ 34 ∧ c ≠ 92 ∧ ¬c < 32 := by decide +kernel
  have distinct : [bytes "carrier_freq", bytes "frame_count", bytes "truncated",
      bytes "pulses"].Nodup := by decide
  simp only [List.nodup_cons, List.mem_cons, List.not_mem_nil, or_false, not_or] at distinct
  obtain ⟨⟨carrierFrames, carrierFlag, carrierPulses⟩, ⟨framesFlag, framesPulses⟩, flagPulses, -⟩ :=
    distinct
  have comma : Json.isWs 44 = false := by decide
  have brace : Json.isWs 125 = false := by decide
  have ends : ∀ rest, Json.EndsNumber (44 :: rest) := fun rest =>
    Json.endsNumber_cons (by decide)
  have array := Json.parseValue_numbers (pulses_small msg.pulses (by decide)) fuel [125]
    (by simpa using enough)
  have carrierSmall : msg.carrierFreq.toNat ≤ 2 ^ 53 := by
    have := msg.carrierFreq.toNat_lt
    omega
  have countSmall : msg.frameCount.toNat ≤ 2 ^ 53 := by
    have := msg.frameCount.toNat_lt
    omega
  have names : ∀ key ∈ [bytes "carrier_freq", bytes "frame_count", bytes "truncated",
      bytes "pulses"], Json.arrayIndex key = none := by decide +kernel
  simp only [List.forall_mem_cons, List.not_mem_nil, false_imp_iff, implies_true,
    and_true] at names
  -- one member after the other, each with what follows it
  have whole : Json.parseValue (fuel + 6) (messageText msg) = some (learnedSignal msg, []) := by
    rw [messageText_members, Json.parseValue_object,
      Json.parseMembers_member [] (plain _ (by simp))
        (Json.parseValue_decimal carrierSmall _ _ (ends _)) comma, if_neg (by decide), if_pos rfl,
      Json.parseMembers_member _ (plain _ (by simp))
        (Json.parseValue_decimal countSmall _ _ (ends _)) comma, if_neg (by decide), if_pos rfl,
      Json.parseMembers_member _ (plain _ (by simp))
        (Json.parseValue_bool _ _ _) comma, if_neg (by decide), if_pos rfl,
      Json.parseMembers_member _ (plain _ (by simp)) array brace, if_pos rfl]
    simp [Json.setMember, learnedSignal, pulseNumbers, carrierFrames, carrierFlag,
      carrierPulses, framesFlag, framesPulses, flagPulses, names]
  rw [Json.parse, budget, whole]
  rfl

/-! ## The text in the encoder's buffer -/

/-- **The encoder is all-or-nothing for every buffer size.**  It ends without a negative
room and without a write outside memory, and changes nothing from `outLen` on.  Where the
text and a NUL fit it leaves them and returns the length, and elsewhere it returns 0.  The
text is JSON, and its members are the fields of the message. -/
theorem encode_all_or_nothing (msg : MessageStruct) (outLen : Nat) {mem : List UInt8}
    (count : msg.pulseCount.toNat ≤ irMaxPulses) (buffer : outLen ≤ mem.length) :
    (∀ fuel, msg.pulseCount.toNat < fuel →
      Ends (encodeIrMessageAt fuel msg outLen mem) fun (n, after) =>
        ((n = (messageText msg.message).length ∧ messageText msg.message ++ [0] <+: after) ↔
          (messageText msg.message).length < outLen) ∧
        (outLen ≤ (messageText msg.message).length → n = 0) ∧
        after.length = mem.length ∧ after.drop outLen = mem.drop outLen) ∧
    Json.parse (messageText msg.message) = some (learnedSignal msg.message) := by
  refine ⟨fun fuel enough => ?_, parse_messageText msg.message⟩
  refine (encodeIrMessageAt_ends count buffer enough).mono ?_
  rintro ⟨n, after⟩ ⟨length, text, within⟩
  refine ⟨?_, ?_, within.length, within.beyond⟩
  · constructor
    · rintro ⟨whole, -⟩
      by_contra tooLong
      have positive := messageText_length msg.message
      rw [encodeIrMessage_eq_none (by omega)] at length
      simp only [Option.map_none, Option.getD_none] at length
      omega
    · intro fits
      have written := encodeIrMessage_eq fits
      refine ⟨?_, text _ written⟩
      rw [length, written]
      rfl
  · intro tooLong
    rw [length, encodeIrMessage_eq_none tooLong]
    rfl

/-- One pulse, of the 800 there is room for. -/
def onePulse : MessageStruct := ⟨38000, 1, 1, false, List.Vector.replicate irMaxPulses 9000⟩

/-- Its text has 72 characters: a buffer of 72 bytes has no room for the NUL. -/
theorem encode_all_or_nothing_short :
    (∀ fuel, onePulse.pulseCount.toNat < fuel →
      Ends (encodeIrMessageAt fuel onePulse 72 (List.replicate 80 7)) fun (n, after) =>
        ((n = (messageText onePulse.message).length ∧
            messageText onePulse.message ++ [0] <+: after) ↔
          (messageText onePulse.message).length < 72) ∧
        (72 ≤ (messageText onePulse.message).length → n = 0) ∧
        after.length = (List.replicate 80 7).length ∧
        after.drop 72 = (List.replicate 80 7).drop 72) ∧
    Json.parse (messageText onePulse.message) = some (learnedSignal onePulse.message) :=
  encode_all_or_nothing onePulse 72 (by decide) (by decide)

/-! ## The published payload -/

theorem field_carrierFreq (msg : IrMessage) :
    (learnedSignal msg).field (bytes "carrier_freq") = some (.num msg.carrierFreq.toNat) := rfl

theorem field_frameCount (msg : IrMessage) :
    (learnedSignal msg).field (bytes "frame_count") = some (.num msg.frameCount.toNat) := rfl

theorem field_truncated (msg : IrMessage) :
    (learnedSignal msg).field (bytes "truncated") = some (.bool msg.truncated) := rfl

theorem field_pulses (msg : IrMessage) :
    (learnedSignal msg).field (bytes "pulses") = some (.arr (pulseNumbers msg.pulses)) := rfl

/-- No number of a capture is too large for a double. -/
theorem wellFormed_learnedSignal (msg : IrMessage) :
    (learnedSignal msg).WellFormed IsFinite := by
  have numbers : ∀ {ns : List Nat}, (∀ n ∈ ns, n ≤ 2 ^ 53) →
      Json.AllWellFormed IsFinite (ns.map fun (k : Nat) => .num k) := by
    intro ns small
    induction ns with
    | nil => trivial
    | cons n ns ih =>
        exact ⟨finite_natCast (small n List.mem_cons_self),
          ih fun k member => small k (List.mem_cons_of_mem n member)⟩
  have carrier := msg.carrierFreq.toNat_lt
  have frames := msg.frameCount.toNat_lt
  have names : [bytes "carrier_freq", bytes "frame_count", bytes "truncated",
      bytes "pulses"].Pairwise fun key other => Json.precedes key other = true := by decide +kernel
  exact ⟨names, finite_natCast (by omega), finite_natCast (by omega), trivial,
    numbers (pulses_small msg.pulses (by decide)), trivial⟩

/-- It is printed and read without a loss. -/
theorem revive_learnedSignal (msg : IrMessage) :
    Json.revive (learnedSignal msg) = learnedSignal msg :=
  Json.revive_finite (wellFormed_learnedSignal msg)

theorem isTruncated_learnedSignal (msg : IrMessage) :
    isTruncated (learnedSignal msg) = msg.truncated := by
  rw [isTruncated, field_truncated]
  rfl

/-- The console line can be printed. -/
theorem logThrows_learnedSignal (msg : IrMessage) : logThrows (learnedSignal msg) = false := by
  have length : pulsesLength (learnedSignal msg) = none := by
    rw [pulsesLength, field_pulses]
  have fields := field_frameCount msg
  have carrier := field_carrierFreq msg
  unfold logThrows
  split
  · rename_i null
    exact absurd null (by simp [learnedSignal])
  · rw [fields, carrier, length]
    rfl

theorem commandPayload_learnedSignal (msg : IrMessage) :
    commandPayload (learnedSignal msg) = commandText msg.carrierFreq msg.pulses := by
  have carrier : Json.stringText (bytes "carrier_freq") = 34 :: bytes "carrier_freq" ++ [34] := by
    decide
  have pulses : Json.stringText (bytes "pulses") = 34 :: bytes "pulses" ++ [34] := by decide
  have opening : bytes "\x7b\"carrier_freq\":" = 123 :: 34 :: bytes "carrier_freq" ++ [34, 58] := by
    decide
  have between : bytes ",\"pulses\":[" = 44 :: 34 :: bytes "pulses" ++ [34, 58, 91] := by decide
  have closing : bytes "]\x7d" = [93, 125] := by decide
  have items := Json.stringifyItems_numbers fun n member =>
    Nat.lt_of_le_of_lt (pulses_small msg.pulses le_rfl n member) (by decide : 2 ^ 16 < 10 ^ 15)
  have small : msg.carrierFreq.toNat < 10 ^ 15 := by
    have := msg.carrierFreq.toNat_lt
    omega
  rw [← pulseNumbers, List.map_map] at items
  simp [commandPayload, field_carrierFreq, field_pulses, Json.stringify, Json.stringifyMembers,
    items, Json.numberText_natCast small, commandText, carrier, pulses, opening, between, closing,
    commaSep, Function.comp_def]

/-! ## Back at the firmware -/

theorem commandText_length (msg : IrMessage) :
    (commandText msg.carrierFreq msg.pulses).length ≤ (messageText msg).length := by
  simp only [commandText, messageText, header, List.length_append]
  omega

/-- Whatever the fragments, the payload is transmitted as the pulses it lists. -/
theorem receive_commandText {msg : IrMessage} (nonempty : msg.pulses ≠ [])
    (capture : msg.pulses.length ≤ irMaxPulses) (rx : Rx) {fragments : List (List UInt8)}
    (delivered : fragments ≠ [])
    (split : fragments.flatten = commandText msg.carrierFreq msg.pulses) :
    (receive rx mqttTopicSend fragments).pushed =
      rx.pushed ++ [⟨msg.carrierFreq, 1, false, msg.pulses⟩] := by
  have fits : fragments.flatten.length < mqttMaxPayloadLen := by
    have bound := messageText_bound capture
    have shorter := commandText_length msg
    rw [split, mqttMaxPayloadLen]
    omega
  rw [receive_pushed rx delivered, kept_of_fits [] (by simpa using fits), List.nil_append, split,
    transmitted, decode_commandText _ _ (List.length_pos_iff.mpr nonempty) capture]
  rfl

/-! ## Learn, then send -/

/-- Nothing ends the session or touches the button while it waits. -/
def Waits (remoteId buttonId : String) (s : State) (e : Event) : Prop :=
  Keeps remoteId buttonId s e ∧ KeepsSession e

/-- An armed button stays armed. -/
theorem armed_run {s t : State} {es : List Event} {remoteId buttonId : String} {signal : Json}
    {session : LearnSession} (named : buttonId ≠ "") (armed : s.learnSession = some session)
    (stored : signalAt s.db remoteId buttonId = some signal)
    (wait : (machine.restrict (Waits remoteId buttonId)).Run s es t) :
    t.learnSession = some session ∧ signalAt t.db remoteId buttonId = some signal := by
  refine Machine.run_preserves (P := fun u => u.learnSession = some session ∧
    signalAt u.db remoteId buttonId = some signal) ?_ ⟨armed, stored⟩ wait
  rintro u e v ⟨armed, stored⟩ ⟨⟨keeps, quiet⟩, move⟩
  exact ⟨(learnSession_next quiet move).trans armed, signalAt_next named keeps move stored⟩

/-- **Learn-then-send is the identity.**  A capture encodes, the backend stores it
on the armed button, and every later send of that button is refused when the
capture was truncated, and otherwise published and reassembled, under any
fragmentation, into a message with the same carrier and pulses. -/
theorem learn_then_send (msg : IrMessage) (nonempty : 1 ≤ msg.pulseCount)
    (capture : msg.pulseCount ≤ irMaxPulses) (start : State) (remoteId buttonId : String)
    (timeoutMs : Option Nat) {armed waiting : State} {es : List Event}
    (arm : postLearn start (some remoteId) (some buttonId) timeoutMs = .ok armed)
    (wait : (machine.restrict (Waits remoteId buttonId)).Run armed es waiting) :
    ∃ text, encodeIrMessage msg mqttMaxPayloadLen = some text ∧
    ∃ learnt, learned waiting text = some learnt ∧
      signalAt learnt.db remoteId buttonId = some (learnedSignal msg) ∧
      ∀ fs later, (machine.restrict (Keeps remoteId buttonId)).Run learnt fs later →
        if msg.truncated then
          (∃ e, postSend later (some remoteId) (some buttonId) = .error e) ∧
            (∃ e, fireButton later remoteId buttonId = .error e) ∧
            next later (.postSend (some remoteId) (some buttonId)) = some later ∧
            next later (.fireButton remoteId buttonId) = some later
        else
          ∃ payload,
            postSend later (some remoteId) (some buttonId) = .ok (publish later payload) ∧
            fireButton later remoteId buttonId = .ok (publish later payload) ∧
            ∀ rx fragments, fragments ≠ [] → fragments.flatten = payload →
              (receive rx mqttTopicSend fragments).pushed =
                rx.pushed ++ [⟨msg.carrierFreq, 1, false, msg.pulses⟩] := by
  have pulses : msg.pulses ≠ [] := List.ne_nil_of_length_pos nonempty
  obtain ⟨r, b, sameRemote, sameButton, remoteNamed, buttonNamed, sameDb, ⟨button, found⟩, session⟩ :=
    postLearn_ok arm
  cases sameRemote
  cases sameButton
  have stored : signalAt armed.db remoteId buttonId = some button.signal := by
    rw [sameDb, signalAt, found, Option.map_some]
  obtain ⟨stillArmed, stillThere⟩ := armed_run buttonNamed session stored wait
  obtain ⟨target, foundTarget, -⟩ := findButton_of_signalAt stillThere
  obtain ⟨learnt, handled, holds⟩ := learned_armed stillArmed foundTarget (parse_messageText msg)
    (logThrows_learnedSignal msg)
  refine ⟨messageText msg, encodeIrMessage_capture capture, learnt, handled, holds, ?_⟩
  intro fs later keeps
  have kept := signalAt_run buttonNamed keeps holds
  cases clipped : msg.truncated with
  | true =>
      rw [if_pos rfl]
      obtain ⟨⟨refused, sent⟩, refusal, fired⟩ := send_truncated remoteNamed buttonNamed rfl kept
        (by rw [isTruncated_learnedSignal, clipped])
      refine ⟨⟨refused, sent⟩, ⟨refusal, fired⟩, ?_, ?_⟩
      · rw [next, sent]
        rfl
      · rw [next, fired]
        rfl
  | false =>
      rw [if_neg (by decide)]
      obtain ⟨sent, fired⟩ := send_whole remoteNamed buttonNamed rfl kept
        (by rw [isTruncated_learnedSignal, clipped])
      rw [commandPayload_learnedSignal] at sent fired
      refine ⟨_, sent, fired, ?_⟩
      intro rx fragments delivered split
      exact receive_commandText pulses capture rx delivered split

/-- A remote with one button that has no signal yet. -/
def powerDb : Db := ⟨[⟨"tv", "TV", "remote", [⟨"power", "Power", 0, 0, none, .null⟩]⟩], [], []⟩

/-- The button is armed, its capture comes, and it is sent at once. -/
theorem learn_then_send_power :
    ∃ armed text learnt payload,
      postLearn (initial powerDb) (some "tv") (some "power") none = .ok armed ∧
      encodeIrMessage ⟨38000, 1, false, [9000, 4500, 560]⟩ mqttMaxPayloadLen = some text ∧
      learned armed text = some learnt ∧
      postSend learnt (some "tv") (some "power") = .ok (publish learnt payload) ∧
      (receive ⟨[], [], []⟩ mqttTopicSend [payload]).pushed =
        [⟨38000, 1, false, [9000, 4500, 560]⟩] := by
  obtain ⟨text, encoded, learnt, handled, -, sends⟩ :=
    learn_then_send ⟨38000, 1, false, [9000, 4500, 560]⟩ (by decide) (by decide)
      (initial powerDb) "tv" "power" none rfl (.nil _)
  obtain ⟨payload, sent, -, received⟩ := sends [] learnt (.nil _)
  exact ⟨_, text, learnt, payload, rfl, encoded, handled, sent,
    received ⟨[], [], []⟩ [payload] (by simp) (by simp)⟩

end IrHub.System.LearnSend
