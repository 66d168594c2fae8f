import FirmwareCatalog.Proofs.Header.Token
import FirmwareCatalog.Proofs.Text.Digits
import FirmwareCatalog.Proofs.Text.Numeral
import FirmwareCatalog.Validation.Pins

/-!
# Pins are judged as they are read

The name of the bus is recognised in two places: where a pin is compared with what
a sensor needs, and where it is read. Both take the same texts, so what is found
about a pin hangs on the pin that is read, and a pin is read however its letters
are cased.
-/

namespace FirmwareCatalog

open Character Numeral

/-! ## Cases -/

theorem toUpper_eq_iff {c upper : Char} (h : upper.toUpper = upper) :
    c.toUpper = upper ↔ c = upper ∨ c = upper.toLower := by
  constructor
  · rintro rfl
    by_cases hc : c.toNat < 128
    · exact forall_ascii (p := fun c => c = c.toUpper ∨ c = c.toUpper.toLower) (by decide +kernel) hc
    · exact .inl (toUpper_of_le (Nat.not_lt.mp hc)).symm
  · rintro (rfl | rfl)
    · exact h
    · rw [toUpper_toLower, h]

namespace Numeral

theorem weight_toUpper (c : Char) : weight c.toUpper = weight c := by
  by_cases hc : c.toNat < 128
  · exact forall_ascii (p := fun c => weight c.toUpper = weight c) (by decide +kernel) hc
  · rw [toUpper_of_le (Nat.not_lt.mp hc)]

theorem isNumeral_toUpper {base : Nat} {digits : List Char} :
    IsNumeral base (digits.map Char.toUpper) ↔ IsNumeral base digits := by
  simp only [IsNumeral, ne_eq, List.map_eq_nil_iff, List.forall_mem_map, weight_toUpper]

theorem magnitude_toUpper (base : Nat) (digits : List Char) :
    magnitude base (digits.map Char.toUpper) = magnitude base digits := by
  rw [magnitude, magnitude, ← List.map_reverse, List.map_map]
  exact congrArg (Nat.ofDigits base) (List.map_congr_left fun c _ => weight_toUpper c)

theorem unsigned_toUpper {base : Nat} {cs : List Char} {n : Nat} :
    Unsigned base (cs.map Char.toUpper) n ↔ Unsigned base cs n := by
  constructor
  · generalize hcs : cs.map Char.toUpper = capitals
    rintro (hnumeral | hnumeral)
    · subst hcs
      rw [magnitude_toUpper]
      exact .plain (isNumeral_toUpper.mp hnumeral)
    · obtain ⟨sign, digits, rfl, hsign, rfl⟩ := List.map_eq_cons_iff.mp hcs
      obtain rfl : sign = '+' := by simpa using (toUpper_eq_iff (by decide)).mp hsign
      rw [magnitude_toUpper]
      exact .plus (isNumeral_toUpper.mp hnumeral)
  · rintro (hnumeral | hnumeral)
    · rw [← magnitude_toUpper]
      exact .plain (isNumeral_toUpper.mpr hnumeral)
    · rw [← magnitude_toUpper]
      exact .plus (isNumeral_toUpper.mpr hnumeral)

theorem Unsigned.head_ne {base : Nat} {c : Char} {cs : List Char} {n : Nat} (h : Unsigned base (c :: cs) n)
    {other : Char} (hother : other ≠ '+' ∧ base ≤ weight other) : c ≠ other := by
  rintro rfl
  cases h with
  | plain numeral => exact absurd (numeral.2 c List.mem_cons_self) (Nat.not_lt.mpr hother.2)
  | plus numeral => exact hother.1 rfl

end Numeral

namespace Pin

/-! ## Reading a pin -/

/-- How a pin is written: as the bus, or as a number that has the letter of the analog pins or none. -/
inductive Written : List Char → Pin → Prop
  | bus {i c : Char} (first : i = 'I' ∨ i = 'i') (last : c = 'C' ∨ c = 'c') : Written [i, '2', c] .i2c
  | analog {a : Char} {number : List Char} {n : Nat} (letter : a = 'A' ∨ a = 'a') (written : Unsigned 10 number n)
      (fits : n < 2 ^ 32) : Written (a :: number) (.analog n)
  | digital {number : List Char} {n : Nat} (written : Unsigned 10 number n) (fits : n < 2 ^ 32) :
      Written number (.digital n)

def Fits : Pin → Prop
  | .i2c => True
  | .analog n => n < 2 ^ 32
  | .digital n => n < 2 ^ 32

theorem canonical_eq_bus_iff {text : String} :
    canonical text = "I2C".toList ↔ Written (Text.trim text.toList) .i2c := by
  have hname : "I2C".toList = ['I', '2', 'C'] := rfl
  rw [canonical, hname]
  constructor
  · intro h
    obtain ⟨i, behind, hcs, hi, hbehind⟩ := List.map_eq_cons_iff.mp h
    obtain ⟨two, behind, rfl, htwo, hbehind⟩ := List.map_eq_cons_iff.mp hbehind
    obtain ⟨c, behind, rfl, hc, hbehind⟩ := List.map_eq_cons_iff.mp hbehind
    obtain rfl := List.map_eq_nil_iff.mp hbehind
    obtain rfl : two = '2' := by simpa using (toUpper_eq_iff (by decide)).mp htwo
    rw [hcs]
    exact .bus ((toUpper_eq_iff (by decide)).mp hi) ((toUpper_eq_iff (by decide)).mp hc)
  · generalize Text.trim text.toList = cs
    rintro (⟨rfl | rfl, rfl | rfl⟩) <;> rfl

theorem canonical_ne_bus {text : String} (h : ∀ i cs, Text.trim text.toList = i :: cs → i ≠ 'I' ∧ i ≠ 'i') :
    canonical text ≠ "I2C".toList := by
  rw [ne_eq, canonical_eq_bus_iff]
  generalize hcs : Text.trim text.toList = cs at h ⊢
  rintro (⟨hfirst, hlast⟩)
  obtain ⟨hupper, hlower⟩ := h _ _ rfl
  exact hfirst.elim hupper hlower

theorem parse?_eq_some_iff {text : String} {pin : Pin} :
    parse? text = some pin ↔ Written (Text.trim text.toList) pin := by
  constructor
  · intro h
    rw [parse?] at h
    split at h
    · rename_i hbus
      cases h
      exact canonical_eq_bus_iff.mp hbus
    · split at h
      · rename_i number hcanonical
        obtain ⟨n, hread, rfl⟩ := Option.map_eq_some_iff.mp h
        obtain ⟨hwritten, hfits⟩ := (unsigned?_eq_some_iff (by decide)).mp hread
        obtain ⟨a, digits, hcs, ha, rfl⟩ := List.map_eq_cons_iff.mp hcanonical
        rw [hcs]
        exact .analog ((toUpper_eq_iff (by decide)).mp ha) (unsigned_toUpper.mp hwritten) hfits
      · obtain ⟨n, hread, rfl⟩ := Option.map_eq_some_iff.mp h
        obtain ⟨hwritten, hfits⟩ := (unsigned?_eq_some_iff (by decide)).mp hread
        exact .digital (unsigned_toUpper.mp hwritten) hfits
  · intro h
    generalize hcs : Text.trim text.toList = cs at h
    cases h with
    | bus hfirst hlast => exact if_pos (canonical_eq_bus_iff.mpr (hcs ▸ .bus hfirst hlast))
    | @analog a number n hletter hwritten hfits =>
      -- the letter of an analog pin begins no name of the bus
      have hbus : canonical text ≠ "I2C".toList := canonical_ne_bus fun i _ hi => by
        obtain rfl : a = i := (List.cons.inj (hcs.symm.trans hi)).1
        rcases hletter with rfl | rfl <;> decide
      have hcanonical : canonical text = 'A' :: number.map Char.toUpper := by
        rw [canonical, hcs, List.map_cons, (toUpper_eq_iff (by decide)).mpr hletter]
      rw [parse?, if_neg hbus, hcanonical]
      exact Option.map_eq_some_iff.mpr
        ⟨n, (unsigned?_eq_some_iff (by decide)).mpr ⟨unsigned_toUpper.mpr hwritten, hfits⟩, rfl⟩
    | digital hwritten hfits =>
      have hletter {c : Char} {behind : List Char} (hc : cs = c :: behind) {other : Char}
          (hother : other ≠ '+' ∧ 10 ≤ weight other) : c ≠ other := (hc ▸ hwritten).head_ne hother
      have hbus : canonical text ≠ "I2C".toList := canonical_ne_bus fun i _ hi =>
        ⟨hletter (hcs.symm.trans hi) (by decide), hletter (hcs.symm.trans hi) (by decide)⟩
      rw [parse?, if_neg hbus, canonical, hcs]
      split
      · rename_i number hcanonical
        obtain ⟨a, digits, ha, hupper, -⟩ := List.map_eq_cons_iff.mp hcanonical
        rcases (toUpper_eq_iff (by decide)).mp hupper with rfl | rfl
        · exact absurd rfl (hletter ha (by decide))
        · exact absurd rfl (hletter ha (by decide))
      · exact Option.map_eq_some_iff.mpr
          ⟨_, (unsigned?_eq_some_iff (by decide)).mpr ⟨unsigned_toUpper.mpr hwritten, hfits⟩, rfl⟩

theorem parse?_eq_i2c_iff {text : String} : parse? text = some .i2c ↔ canonical text = "I2C".toList := by
  rw [parse?_eq_some_iff, canonical_eq_bus_iff]

theorem pinClass_eq_i2c_iff {pin : Pin} : pin.pinClass = .i2c ↔ pin = .i2c := by
  cases pin <;> simp [pinClass]

theorem toList_render_analog (n : Nat) : (render (.analog n)).toList = 'A' :: decimal n := by
  rw [render, String.toList_append, toList_decimalText]
  rfl

theorem written_render {pin : Pin} (h : pin.Fits) : Written pin.render.toList pin := by
  cases pin with
  | i2c => exact .bus (.inl rfl) (.inl rfl)
  | analog n =>
    rw [toList_render_analog]
    exact .analog (.inl rfl) ((unsigned?_eq_some_iff (by decide)).mp (unsigned?_decimal h)).1 h
  | digital n =>
    rw [render, toList_decimalText]
    exact .digital ((unsigned?_eq_some_iff (by decide)).mp (unsigned?_decimal h)).1 h

theorem trim_render (pin : Pin) : Text.trim pin.render.toList = pin.render.toList := by
  have hblanks : ∀ c ∈ pin.render.toList, isBlank c = false := by
    cases pin with
    | i2c => decide
    | analog n =>
      rw [toList_render_analog]
      exact List.forall_mem_cons.mpr ⟨by decide, isBlank_of_mem_decimal⟩
    | digital n =>
      rw [render, toList_decimalText]
      exact isBlank_of_mem_decimal
  exact Header.trim_eq_self (fun c hc => hblanks c (List.mem_of_head? hc))
    fun c hc => hblanks c (List.mem_of_getLast? hc)

theorem parse?_render {pin : Pin} (h : pin.Fits) : parse? pin.render = some pin := by
  rw [parse?_eq_some_iff, trim_render]
  exact written_render h

end Pin

namespace Validation

/-! ## Two ways to recognise the bus -/

theorem equalButCase_iff {cs ds : List Char} :
    equalButCase cs ds = true ↔ cs.map Char.toUpper = ds.map Char.toUpper := by
  induction cs generalizing ds with
  | nil => cases ds <;> simp [equalButCase]
  | cons c cs ih =>
    cases ds with
    | nil => simp [equalButCase]
    | cons d ds => simp [equalButCase, ih, toLower_eq_iff]

theorem isBusName_iff {text : String} : isBusName text = true ↔ Pin.parse? text = some .i2c := by
  have hname : "I2C".toList.map Char.toUpper = "I2C".toList := by decide
  rw [isBusName, equalButCase_iff, hname, Pin.parse?_eq_i2c_iff, Pin.canonical]

/-! ## Judging a pin -/

/-- What is wrong with a pin for a sensor that needs a class of pins. -/
inductive Unfit (input : Nat) (sensor text : String) : PinClass → Fault → Prop
  | busRequired (read : Pin.parse? text ≠ some .i2c) :
    Unfit input sensor text .i2c (.i2cPinRequired input sensor text)
  | busReserved {required : PinClass} (other : required ≠ .i2c) (read : Pin.parse? text = some .i2c) :
      Unfit input sensor text required (.i2cPinReserved input sensor)
  | ofOtherClass {required : PinClass} {pin : Pin} (other : required ≠ .i2c) (read : Pin.parse? text = some pin)
      (noBus : pin.pinClass ≠ .i2c) (differ : pin.pinClass ≠ required) :
      Unfit input sensor text required (.pinClassMismatch input sensor text required pin.pinClass)

theorem pinFault?_eq_some_iff {input : Nat} {sensor text : String} {required : PinClass} {fault : Fault} :
    pinFault? input sensor text required = some fault ↔ Unfit input sensor text required fault := by
  unfold pinFault?
  split
  · constructor
    · intro h
      split at h
      · cases h
      · rename_i hbus
        cases h
        exact .busRequired fun hread => hbus (isBusName_iff.mpr hread)
    · intro h
      cases h with
      | busRequired hread => rw [if_neg fun hbus => hread (isBusName_iff.mp hbus)]
      | busReserved hother => exact absurd rfl hother
      | ofOtherClass hother => exact absurd rfl hother
  · rename_i hother
    constructor
    · intro h
      split at h
      · rename_i hbus
        cases h
        exact .busReserved hother (isBusName_iff.mp hbus)
      · rename_i hbus
        obtain ⟨_, hclass, h⟩ := Option.bind_eq_some_iff.mp h
        obtain ⟨pin, hread, rfl⟩ := Option.map_eq_some_iff.mp hclass
        split at h
        · cases h
        · rename_i hdiffer
          cases h
          have hnoBus (hpin : pin.pinClass = .i2c) : False :=
            hbus (isBusName_iff.mpr (Pin.pinClass_eq_i2c_iff.mp hpin ▸ hread))
          exact .ofOtherClass hother hread hnoBus hdiffer
    · intro h
      cases h with
      | busRequired => exact absurd rfl hother
      | busReserved _ hread => rw [if_pos (isBusName_iff.mpr hread)]
      | ofOtherClass _ hread hnoBus hdiffer =>
        have hbus (h : isBusName text = true) : False :=
          hnoBus (Pin.pinClass_eq_i2c_iff.mpr (Option.some.inj (hread.symm.trans (isBusName_iff.mp h))))
        rw [if_neg hbus, hread, Option.map_some, Option.bind_some, if_neg hdiffer]

theorem inputPinFault?_eq_some_iff {sensors : Registry Sensor} {input : InputAssignment} {fault : Fault} :
    inputPinFault? sensors input = some fault ↔
      ∃ sensor required, sensors.get? input.sensorIndex.toNat = some sensor ∧
        sensor.pinRequirement = some required ∧
        Unfit input.idx.toNat (sensor.name.getD input.sensor) input.pin required fault := by
  simp only [inputPinFault?, Option.bind_eq_bind, Option.bind_eq_some_iff, pinFault?_eq_some_iff, exists_and_left]

/-- **Pins are judged as they are read.** The inputs are gone through in order, each for itself, and at most one fault
is found about an input: if there is a sensor with its index that needs a class of pins, and the pin that is read is
unfit for it. A pin is read exactly where it is written, and a pin that fits its bits is read from its own text. -/
theorem pins_judged_as_read :
    (∀ sensors inputs, (checkPins sensors inputs).findings =
      .ofFaults (inputs.filterMap (inputPinFault? sensors))) ∧
      (∀ sensors input fault, inputPinFault? sensors input = some fault ↔
        ∃ sensor required, sensors.get? input.sensorIndex.toNat = some sensor ∧
          sensor.pinRequirement = some required ∧
          Unfit input.idx.toNat (sensor.name.getD input.sensor) input.pin required fault) ∧
      (∀ sensors inputs more, (checkPins sensors (inputs ++ more)).findings =
        (checkPins sensors inputs).findings ++ (checkPins sensors more).findings) ∧
      (∀ text pin, Pin.parse? text = some pin ↔ Pin.Written (Text.trim text.toList) pin) ∧
      ∀ pin : Pin, pin.Fits → Pin.parse? pin.render = some pin := by
  refine ⟨fun _ _ => rfl, fun _ _ _ => inputPinFault?_eq_some_iff, fun sensors inputs more => ?_,
    fun _ _ => Pin.parse?_eq_some_iff, fun _ => Pin.parse?_render⟩
  simp only [checkPins, List.filterMap_append]
  rfl

def analogSensor : Sensor :=
  .ofRecord ⟨0, .ofList [("pinTypeRequirement", .raw "PIN_ANALOG")], [], "", .structLiteral, true⟩

def analogSensors : Registry Sensor := { Registry.empty Sensor with entries := [analogSensor] }

def inputOnPin (pin : String) : InputAssignment := ⟨0, pin, "", 0, "CHT", 0, none⟩

/-- A pin that means nothing is left alone, between one that is digital and one that is the bus. -/
theorem pins_judged_as_read_analogSensors :
    (checkPins analogSensors [inputOnPin " +07", inputOnPin "A", inputOnPin "i2c"]).findings.faults =
        [.pinClassMismatch 0 "CHT" " +07" .analog .digital, .i2cPinReserved 0 "CHT"] ∧
      Pin.parse? (Pin.render (.analog 4294967295)) = some (.analog 4294967295) := by
  obtain ⟨hfindings, hfault, -, hread, hrender⟩ := pins_judged_as_read
  have hsensor : analogSensors.get? 0 = some analogSensor := rfl
  have hrequired : analogSensor.pinRequirement = some .analog := by decide +kernel
  have hdigital : Pin.parse? " +07" = some (.digital 7) :=
    (hread _ _).mpr (.digital (.plus ⟨by decide, by decide⟩) (by decide))
  have hbus : Pin.parse? "i2c" = some .i2c := (hread _ _).mpr (.bus (.inr rfl) (.inr rfl))
  have hnone : Pin.parse? "A" = none := by decide
  have hfirst : inputPinFault? analogSensors (inputOnPin " +07") =
      some (.pinClassMismatch 0 "CHT" " +07" .analog .digital) :=
    (hfault _ _ _).mpr ⟨_, _, hsensor, hrequired, .ofOtherClass (by decide) hdigital (by decide) (by decide)⟩
  have hsecond : inputPinFault? analogSensors (inputOnPin "A") = none := by
    rw [Option.eq_none_iff_forall_not_mem]
    rintro fault hmem
    obtain ⟨sensor, required, hfound, hneeds, hunfit⟩ := (hfault _ _ _).mp hmem
    obtain rfl := Option.some.inj (hsensor.symm.trans hfound)
    obtain rfl := Option.some.inj (hrequired.symm.trans hneeds)
    cases hunfit with
    | busReserved _ hpin => simp [inputOnPin, hnone] at hpin
    | ofOtherClass _ hpin => simp [inputOnPin, hnone] at hpin
  have hthird : inputPinFault? analogSensors (inputOnPin "i2c") = some (.i2cPinReserved 0 "CHT") :=
    (hfault _ _ _).mpr ⟨_, _, hsensor, hrequired, .busReserved (by decide) hbus⟩
  refine ⟨?_, hrender _ (by unfold Pin.Fits; decide)⟩
  rw [hfindings]
  simp only [Findings.ofFaults, List.filterMap_cons, List.filterMap_nil, hfirst, hsecond, hthird]

end Validation

end FirmwareCatalog
