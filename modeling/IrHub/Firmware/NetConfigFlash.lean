/-
# Firmware.NetConfigFlash -- `net_config_flash.cpp`: loading, saving and erasing the record

One flash sector holds the record in its first page; the rest of the sector is
never read.  `do_erase` sets it to `0xFF` and `do_program` writes the page, and
either may be refused by `flash_safe_execute` without effect.  `Fault` says where
a save is stopped, the loss of power between the two steps included.

A save erases before it programs, so one that stops in between leaves neither the
old record nor the new one (`save_then_load`).
-/
import IrHub.Firmware.NetConfig

namespace IrHub.Firmware.NetConfigFlash

set_option autoImplicit false

open IrHub.Theory IrHub.Firmware.NetConfig

/-- `FLASH_PAGE_SIZE` bytes, the size of a record. -/
abbrev Page := List.Vector UInt8 recordBytes

/-- The page `config_in_xip()` points to, and the static buffer `s_page`. -/
structure Flash where
  config : Page
  page : Page

/-- Erased flash. -/
def erased : Page := List.Vector.replicate recordBytes 0xFF

theorem serialize_length {c : NetConfig} {page written : List UInt8}
    (done : serialize c page = some written) : written.length = page.length := by
  by_cases long : recordBytes ≤ page.length
  · have padding : (List.replicate 81 (0xFF : UInt8)).length = 81 := List.length_replicate
    rw [serialize_eq c long] at done
    rw [← Option.some.inj done]
    simp only [List.length_append, payload_length, put32_length, padding, List.length_drop]
    rw [show offCrc = 171 from rfl]
    rw [show recordBytes = 256 from rfl] at long ⊢
    omega
  · rw [serialize, if_pos (Nat.lt_of_not_le long)] at done
    cases done

/-- `serialize(c, s_page, sizeof(s_page))` -/
def serializePage (c : NetConfig) (page : Page) : Page :=
  match done : serialize c page.toList with
  | some written => ⟨written, (serialize_length done).trans page.toList_length⟩
  | none => page

/-- What the page held before does not show. -/
theorem serializePage_page (c : NetConfig) (page other : Page) :
    serializePage c page = serializePage c other := by
  have bytes : ∀ page : Page, (serializePage c page).toList =
      payload c ++ (put32 (crc32 (payload c)) ++ List.replicate 81 0xFF) := by
    intro page
    have written := serialize_page c page.toList_length
    unfold serializePage
    split
    · rename_i done
      exact Option.some.inj (done.symm.trans written)
    · rename_i refused
      exact absurd (refused.symm.trans written) (by simp)
  exact List.Vector.toList_injective ((bytes page).trans (bytes other).symm)

/-- `memset(&out, 0, sizeof(out))` -/
def zeroed : NetConfig where
  ssid := List.Vector.replicate _ 0
  password := List.Vector.replicate _ 0
  brokerHost := List.Vector.replicate _ 0
  brokerPort := 0

/-- The settings without a stored record. -/
def unstored (d : BuildDefinitions) : Source × NetConfig :=
  match buildDefaults d with
  | some c => (.buildDefaults, c)
  | none => (.none, zeroed)

/-- `load` -/
def load (d : BuildDefinitions) (f : Flash) : (Source × NetConfig) × Flash :=
  let f := { f with page := f.config }
  match parse f.page.toList with
  | some c => ((.flash, c), f)
  | none => (unstored d, f)

/-- Where a save stops short. -/
inductive Fault where
  | none
  | eraseFails
  | powerLost
  | programFails
  deriving DecidableEq, Repr

/-- `save`: the value returned, `none` when power is lost first. -/
def save (binaryClear : Bool) (fault : Fault) (f : Flash) (c : NetConfig) : Option Bool × Flash :=
  if validate c ≠ .ok ∨ binaryClear = false then (some false, f)
  else
    let f := { f with page := serializePage c f.page }
    match fault with
    | .eraseFails => (some false, f)
    | .powerLost => (none, { f with config := erased })
    | .programFails => (some false, { f with config := erased })
    | .none =>
        let f := { f with config := f.page }
        -- the verification reads the programmed page back
        if parse f.config.toList = none ∨ f.config ≠ f.page then (some false, f)
        else (some true, f)

/-- `erase` -/
def erase (binaryClear eraseFails : Bool) (f : Flash) : Bool × Flash :=
  if binaryClear = false ∨ eraseFails then (false, f) else (true, { f with config := erased })

/-! ## What the next load finds -/

theorem load_config (d : BuildDefinitions) {f g : Flash} (same : f.config = g.config) :
    (load d f).1 = (load d g).1 := by
  simp only [load, same]

theorem parse_erased : parse erased.toList = none := by
  have blank : get32 erased.toList ≠ magic := by decide
  simp [parse, blank]

/-- Erased flash holds no settings. -/
theorem load_erased (d : BuildDefinitions) (page : Page) :
    (load d ⟨erased, page⟩).1 = unstored d := by
  simp only [load, parse_erased]

/-- A record written by `serialize` parses to the settings. -/
theorem parse_serializePage {c : NetConfig} (valid : validate c = .ok) (page : Page) :
    parse (serializePage c page).toList = some (canonical c) := by
  have long : recordBytes ≤ page.toList.length := Nat.le_of_eq page.toList_length.symm
  have written := serialize_eq c long
  have shape : (serializePage c page).toList = payload c ++ (put32 (crc32 (payload c)) ++
      (List.replicate 81 0xFF ++ page.toList.drop recordBytes)) := by
    unfold serializePage
    split
    · rename_i bytes done
      exact Option.some.inj (done.symm.trans written)
    · rename_i refused
      exact absurd (refused.symm.trans written) (by simp)
  rw [shape]
  exact parse_record valid _

/-- A record that `save` programs is the one the next load finds. -/
theorem load_serialized (d : BuildDefinitions) {f : Flash} {c : NetConfig} {page : Page}
    (valid : validate c = .ok) (record : f.config = serializePage c page) :
    (load d f).1 = (.flash, canonical c) := by
  simp only [load, record, parse_serializePage valid page]

/-- The erase of a save took effect. -/
def Erases (binaryClear : Bool) (fault : Fault) (c : NetConfig) : Prop :=
  validate c = .ok ∧ binaryClear = true ∧ fault ≠ .eraseFails

instance (binaryClear : Bool) (fault : Fault) (c : NetConfig) :
    Decidable (Erases binaryClear fault c) :=
  inferInstanceAs (Decidable (_ ∧ _ ∧ _))

/-- What a save leaves in flash. -/
theorem save_config (binaryClear : Bool) (fault : Fault) (f : Flash) (c : NetConfig) :
    (save binaryClear fault f c).2.config =
      if Erases binaryClear fault c then
        if fault = .none then serializePage c f.page else erased
      else f.config := by
  by_cases refused : validate c ≠ .ok ∨ binaryClear = false
  · have untouched : ¬Erases binaryClear fault c := by
      rintro ⟨valid, clear, -⟩
      rcases refused with invalid | overlap
      · exact invalid valid
      · rw [clear] at overlap
        cases overlap
    rw [if_neg untouched, save, if_pos refused]
  · obtain ⟨valid, clear⟩ := not_or.mp refused
    rw [not_not] at valid
    rw [Bool.not_eq_false] at clear
    rw [save, if_neg refused]
    cases fault with
    | eraseFails => rw [if_neg fun erases => erases.2.2 rfl]
    | powerLost => rw [if_pos ⟨valid, clear, nofun⟩, if_neg nofun]
    | programFails => rw [if_pos ⟨valid, clear, nofun⟩, if_neg nofun]
    | none =>
        rw [if_pos ⟨valid, clear, nofun⟩, if_pos rfl]
        dsimp only
        split <;> rfl

/-- What the next load finds after a save. -/
theorem load_save (d : BuildDefinitions) (binaryClear : Bool) (fault : Fault) (f : Flash)
    (c : NetConfig) :
    ((save binaryClear fault f c).1 = some true ∧ validate c = .ok ∧
      (load d (save binaryClear fault f c).2).1 = (.flash, canonical c)) ∨
    ((save binaryClear fault f c).1 ≠ some true ∧
      (load d (save binaryClear fault f c).2).1 =
        if Erases binaryClear fault c then unstored d else (load d f).1) := by
  by_cases refused : validate c ≠ .ok ∨ binaryClear = false
  · have untouched : ¬Erases binaryClear fault c := by
      rintro ⟨valid, clear, -⟩
      rcases refused with invalid | overlap
      · exact invalid valid
      · rw [clear] at overlap
        cases overlap
    have outcome : save binaryClear fault f c = (some false, f) := if_pos refused
    rw [outcome, if_neg untouched]
    exact .inr ⟨nofun, rfl⟩
  · obtain ⟨valid, clear⟩ := not_or.mp refused
    rw [not_not] at valid
    rw [Bool.not_eq_false] at clear
    cases fault with
    | eraseFails =>
        have outcome : save binaryClear .eraseFails f c =
            (some false, { f with page := serializePage c f.page }) := if_neg refused
        have untouched : ¬Erases binaryClear .eraseFails c := fun ⟨_, _, ne⟩ => ne rfl
        rw [outcome, if_neg untouched]
        exact .inr ⟨nofun, load_config d rfl⟩
    | powerLost =>
        have outcome : save binaryClear .powerLost f c =
            (none, ⟨erased, serializePage c f.page⟩) := if_neg refused
        rw [outcome, if_pos ⟨valid, clear, by decide⟩]
        exact .inr ⟨nofun, load_erased d _⟩
    | programFails =>
        have outcome : save binaryClear .programFails f c =
            (some false, ⟨erased, serializePage c f.page⟩) := if_neg refused
        rw [outcome, if_pos ⟨valid, clear, by decide⟩]
        exact .inr ⟨nofun, load_erased d _⟩
    | none =>
        have read := parse_serializePage valid f.page
        have outcome : save binaryClear .none f c =
            (some true, ⟨serializePage c f.page, serializePage c f.page⟩) := by
          rw [save, if_neg refused]
          simp [read]
        rw [outcome]
        exact .inl ⟨rfl, valid, load_serialized d valid rfl⟩

/-- **A save is all or nothing only up to its erase.**  When it returns true the
next load gives the candidate from flash.  Otherwise, stopped before the erase
took effect it changes nothing; stopped after, it leaves erased flash, so the next
load gives the build defaults or none. -/
theorem save_then_load (d : BuildDefinitions) (binaryClear : Bool) (fault : Fault) (f : Flash)
    (c : NetConfig) :
    ((save binaryClear fault f c).1 = some true →
      ∃ s, (load d (save binaryClear fault f c).2).1 = (.flash, s) ∧
        cstr s.ssid.toList = cstr c.ssid.toList ∧
        cstr s.password.toList = cstr c.password.toList ∧
        cstr s.brokerHost.toList = cstr c.brokerHost.toList ∧ s.brokerPort = c.brokerPort) ∧
    ((save binaryClear fault f c).1 ≠ some true →
      (load d (save binaryClear fault f c).2).1 =
        if Erases binaryClear fault c then unstored d else (load d f).1) := by
  rcases load_save d binaryClear fault f c with ⟨saved, valid, loaded⟩ | ⟨failed, loaded⟩
  · obtain ⟨ssid, password, host, port⟩ := canonical_values valid
    exact ⟨fun _ => ⟨canonical c, loaded, ssid, password, host, port⟩,
      fun failed => absurd saved failed⟩
  · exact ⟨fun saved => absurd saved failed, fun _ => loaded⟩

def homeNet : NetConfig where
  ssid := strcpyZeroed (bytes "HomeNet") (by decide)
  password := strcpyZeroed (bytes "hunter2hunter2") (by decide)
  brokerHost := strcpyZeroed (bytes "192.168.1.100") (by decide)
  brokerPort := 1883

/-- The same network, another broker. -/
def movedBroker : NetConfig :=
  { homeNet with brokerHost := strcpyZeroed (bytes "192.168.1.7") (by decide) }

theorem canonical_homeNet : canonical homeNet = homeNet := by decide

/-- A build without default settings. -/
def noDefinitions : BuildDefinitions := ⟨[], [], [], 1883⟩

/-- Settings are stored; the save of new ones is refused its program step; the hub
boots with none. -/
theorem save_loses_record :
    validate movedBroker = .ok ∧
      (load noDefinitions ⟨serializePage homeNet erased, erased⟩).1 = (.flash, homeNet) ∧
      (save true .programFails ⟨serializePage homeNet erased, erased⟩ movedBroker).1 = some false ∧
      (load noDefinitions
        (save true .programFails ⟨serializePage homeNet erased, erased⟩ movedBroker).2).1 =
          (.none, zeroed) := by
  have record : (⟨serializePage homeNet erased, erased⟩ : Flash).config =
      serializePage homeNet erased := by dsimp only
  have accepted : ¬(validate movedBroker ≠ .ok ∨ true = false) := by decide
  refine ⟨by decide, ?_, ?_, ?_⟩
  · rw [load_serialized noDefinitions (by decide) record, canonical_homeNet]
  · rw [save, if_neg accepted]
  · rw [save, if_neg accepted]
    exact load_erased noDefinitions _

end IrHub.Firmware.NetConfigFlash
