import FirmwareCatalog.ConfigBlock
import FirmwareCatalog.Proofs.MarkedBlock.Text
import FirmwareCatalog.Proofs.Timestamp
import FirmwareCatalog.Settings
import FirmwareCatalog.Validation.Finding

/-!
# The lines of the config block

The block between the standard markers is a list of lines. Texts without line
feeds that do not hold the end marker keep it one: no line holds the marker but
the last.
-/

namespace FirmwareCatalog.ConfigBlock

open Numeral Text

/-! ## Lines -/

def rule : List Char := "// ============================================================".toList

def fieldLine (position : Nat) (field : InputField) (value : List Char) : List Char :=
  "#define INPUT_".toList ++ decimal position ++ "_".toList ++ field.render.toList ++
    " ".toList ++ value

def noteLine (position : Nat) (application sensor : String) : List Char :=
  "// Input ".toList ++ decimal position ++ ": ".toList ++ application.toList ++ " (".toList ++
    sensor.toList
    ++ ")".toList

def linesOf (position : Nat) (input : InputAssignment) : List (List Char) :=
  [[], noteLine position input.application input.sensor,
    fieldLine position .pin (trim input.pin.toList),
    fieldLine position .application (decimal input.applicationIndex.toNat),
    fieldLine position .sensor (decimal input.sensorIndex.toNat)]

def linesFrom : Nat → List InputAssignment → List (List Char)
  | _, [] => []
  | position, input :: inputs => linesOf position input ++ linesFrom (position + 1) inputs

def bannerLine (ctx : GenerationContext) : List Char :=
  "// Generated by regc v".toList ++ ctx.toolVersion.toList ++ " for ".toList ++ ctx.platform.toList

def timestampLine (ctx : GenerationContext) : List Char :=
  "// Generated at ".toList ++ ctx.timestamp.render.toList

def countLine (count : Nat) : List Char := "#define NUM_CONFIGURED_INPUTS ".toList ++ decimal count

def headLines (ctx : GenerationContext) : List (List Char) :=
  [rule, "// Static input configuration".toList, bannerLine ctx, timestampLine ctx,
    "// Do not edit by hand; re-run \x60regc generate\x60 instead.".toList, rule]

def innerLines (inputs : List InputAssignment) (ctx : GenerationContext) : List (List Char) :=
  headLines ctx ++ ([] :: countLine inputs.length :: (linesFrom 0 inputs ++ [[]]))

theorem toList_inputLines (position : Nat) (input : InputAssignment) :
    (inputLines position input).toList = ofLines (linesOf position input) := by
  unfold inputLines
  extract_lets n
  unfold linesOf noteLine fieldLine
  simp [n, InputField.render, Text.trimmed]

theorem toList_inputsFrom (position : Nat) (inputs : List InputAssignment) :
    (inputsFrom position inputs).toList = ofLines (linesFrom position inputs) := by
  induction inputs generalizing position with
  | nil => rfl
  | cons input inputs ih => rw [inputsFrom, String.toList_append, toList_inputLines, ih, linesFrom,
      ofLines_append]

theorem toList_body (inputs : List InputAssignment) (ctx : GenerationContext) :
    (body inputs ctx).toList = ofLines ([] :: innerLines inputs ctx) := by
  have hfirst : "\n// ============================================================\n".toList =
      '\n' :: (rule ++ ['\n']) := by
    unfold rule; rw [String.toList_ofList, String.toList_ofList]; rfl
  have hrule : "// ============================================================\n\n".toList =
      rule ++ ['\n', '\n'] := by
    unfold rule; rw [String.toList_ofList, String.toList_ofList]; rfl
  have htitle : "// Static input configuration\n".toList = "// Static input configuration".toList ++
      ['\n'] := by
    rw [String.toList_ofList, String.toList_ofList]; rfl
  have hnote : "// Do not edit by hand; re-run \x60regc generate\x60 instead.\n".toList =
      "// Do not edit by hand; re-run \x60regc generate\x60 instead.".toList ++ ['\n'] := by
    rw [String.toList_ofList, String.toList_ofList]; rfl
  have hnewline : "\n".toList = ['\n'] := rfl
  unfold body innerLines headLines bannerLine timestampLine countLine GenerationContext.banner
  simp only [String.toList_append, hfirst, hrule, htitle, hnote, hnewline, toList_inputsFrom,
    toList_decimalText,
    ofLines_append, ofLines_cons, ofLines_nil, List.append_assoc, List.cons_append, List.nil_append]

/-! ## Lines that keep the block one -/

def FitsLine (text : List Char) : Prop :=
  '\n' ∉ text ∧ ¬ BlockMarkers.standard.stop.toList <:+: text

/-- What keeps the end marker from reaching from one text to another. -/
def Parts (gap : List Char) : Prop :=
  '\n' ∉ gap ∧ ∃ a c b, gap = a ++ c :: b ∧ c ∉ BlockMarkers.standard.stop.toList ∧ 'G' ∉ a ∧ '#' ∉ b

theorem stop_eq_cons :
    BlockMarkers.standard.stop.toList = '#' :: "endif // USE_STATIC_CONFIG".toList := by
  show "#endif // USE_STATIC_CONFIG".toList = _
  rw [String.toList_ofList, String.toList_ofList]

theorem stop_eq_append : BlockMarkers.standard.stop.toList = "#endif // USE_STATIC_CONFI".toList ++
    ['G'] := by
  show "#endif // USE_STATIC_CONFIG".toList = _
  rw [String.toList_ofList, String.toList_ofList]; rfl

theorem fitsLine_of_notMem {text : List Char} (hnewline : '\n' ∉ text) (h : '#' ∉ text) :
    FitsLine text := by
  refine ⟨hnewline, fun hin => h (hin.subset ?_)⟩
  rw [stop_eq_cons]
  exact List.mem_cons_self

theorem fitsLine_nil : FitsLine [] := fitsLine_of_notMem List.not_mem_nil List.not_mem_nil

theorem FitsLine.append {a gap b : List Char} (ha : FitsLine a) (hgap : Parts gap) (hb : FitsLine b) :
    FitsLine (a ++ gap ++ b) := by
  obtain ⟨hnewline, u, c, w, rfl, hc, hu, hw⟩ := hgap
  refine ⟨by simp only [List.mem_append, not_or]; exact ⟨⟨ha.1, by simpa using hnewline⟩, hb.1⟩,
    fun h => ?_⟩
  have hsplit : a ++ (u ++ c :: w) ++ b = (a ++ u) ++ c :: (w ++ b) := by simp
  rw [hsplit] at h
  rcases infix_of_infix_append_cons hc h with h | h
  · rw [stop_eq_append] at h
    exact ha.2 (stop_eq_append ▸ infix_of_last_notMem hu h)
  · rw [stop_eq_cons] at h
    exact hb.2 (stop_eq_cons ▸ infix_of_first_notMem hw h)

theorem FitsLine.behind {gap b : List Char} (hgap : Parts gap) (hb : FitsLine b) :
    FitsLine (gap ++ b) :=
  fitsLine_nil.append hgap hb

theorem FitsLine.behind_of_notMem {a b : List Char} (hnewline : '\n' ∉ a) (h : '#' ∉ a)
    (hb : FitsLine b) :
    FitsLine (a ++ b) := by
  refine ⟨by simpa [hnewline] using hb.1, fun hin => hb.2 ?_⟩
  rw [stop_eq_cons] at hin ⊢
  exact infix_of_first_notMem h hin

theorem fitsLine_decimal (n : Nat) : FitsLine (decimal n) :=
  fitsLine_of_notMem (notMem_decimal (by decide) n) (notMem_decimal (by decide) n)

theorem fitsLine_noteLine (position : Nat) {application sensor : String}
    (happlication : FitsLine application.toList)
    (hsensor : FitsLine sensor.toList) : FitsLine (noteLine position application sensor) := by
  have hnewline := notMem_decimal (c := '\n') (by decide) position
  have hfirst := notMem_decimal (c := '#') (by decide) position
  have hinput : FitsLine ("// Input ".toList ++ decimal position ++ ": ".toList ++
      application.toList) :=
    .behind_of_notMem (by simpa using hnewline) (by simpa using hfirst) happlication
  have hopen : Parts " (".toList :=
    ⟨by simp, [' '], '(', [], by simp, by decide, by simp, by simp⟩
  have hclose : Parts ")".toList :=
    ⟨by simp, [], ')', [], by simp, by decide, by simp, by simp⟩
  have hline := (hinput.append hopen hsensor).append hclose fitsLine_nil
  unfold noteLine
  rwa [List.append_nil] at hline

theorem fitsLine_fieldLine (position : Nat) (field : InputField) {value : List Char}
    (h : FitsLine value) :
    FitsLine (fieldLine position field value) := by
  have hdefine : Parts ("#define INPUT_".toList ++ decimal position ++ "_".toList ++
      field.render.toList ++ " ".toList) := by
    have hnewline := notMem_decimal (c := '\n') (by decide) position
    have hfirst := notMem_decimal (c := '#') (by decide) position
    refine ⟨?_, "#define IN".toList, 'P', "UT_".toList ++ decimal position ++ "_".toList ++
      field.render.toList ++ " ".toList,
      by simp, by decide, by simp, ?_⟩
    · cases field <;> simpa [InputField.render] using hnewline
    · cases field <;> simpa [InputField.render] using hfirst
  unfold fieldLine
  exact FitsLine.behind hdefine h

theorem fitsLine_timestampLine (ctx : GenerationContext) : FitsLine (timestampLine ctx) := by
  have hnewline := Timestamp.notMem_render (c := '\n') (by decide) (by decide) ctx.timestamp
  have hfirst := Timestamp.notMem_render (c := '#') (by decide) (by decide) ctx.timestamp
  unfold timestampLine
  exact .behind_of_notMem (by simp) (by simp) (fitsLine_of_notMem hnewline hfirst)

theorem fitsLine_bannerLine {ctx : GenerationContext} (hversion : FitsLine ctx.toolVersion.toList)
    (hplatform : FitsLine ctx.platform.toList) : FitsLine (bannerLine ctx) := by
  have htool : FitsLine ("// Generated by regc v".toList ++ ctx.toolVersion.toList) :=
    .behind_of_notMem (by simp) (by simp) hversion
  have hfor : Parts " for ".toList :=
    ⟨by simp, " f".toList, 'o', "r ".toList, by simp, by decide, by simp, by simp⟩
  unfold bannerLine
  exact htool.append hfor hplatform

theorem fitsLine_countLine (count : Nat) : FitsLine (countLine count) := by
  have hgap : Parts "#define NUM_CONFIGURED_INPUTS ".toList :=
    ⟨by simp, "#define NU".toList, 'M',
      "_CONFIGURED_INPUTS ".toList, by simp, by decide, by simp, by simp⟩
  unfold countLine
  exact FitsLine.behind hgap (fitsLine_decimal count)

theorem fitsLine_linesOf {position : Nat} {input : InputAssignment}
    (happlication : FitsLine input.application.toList)
    (hsensor : FitsLine input.sensor.toList) (hpin : FitsLine (trim input.pin.toList)) :
    ∀ line ∈ linesOf position input, FitsLine line := by
  unfold linesOf
  simp only [List.mem_cons, List.not_mem_nil, or_false, forall_eq_or_imp, forall_eq]
  exact ⟨fitsLine_nil, fitsLine_noteLine _ happlication hsensor, fitsLine_fieldLine _ _ hpin,
    fitsLine_fieldLine _ _ (fitsLine_decimal _), fitsLine_fieldLine _ _ (fitsLine_decimal _)⟩

theorem fitsLine_linesFrom {inputs : List InputAssignment}
    (happlication : ∀ input ∈ inputs, FitsLine input.application.toList)
    (hsensor : ∀ input ∈ inputs, FitsLine input.sensor.toList)
    (hpin : ∀ input ∈ inputs, FitsLine (trim input.pin.toList)) :
    ∀ position, ∀ line ∈ linesFrom position inputs, FitsLine line := by
  induction inputs with
  | nil => intro position line h; cases h
  | cons input inputs ih =>
    intro position line h
    rcases List.mem_append.mp h with h | h
    · exact fitsLine_linesOf (happlication _ List.mem_cons_self) (hsensor _ List.mem_cons_self)
        (hpin _ List.mem_cons_self) line h
    · exact ih (fun i hi => happlication i (List.mem_cons_of_mem _ hi))
        (fun i hi => hsensor i (List.mem_cons_of_mem _ hi))
        (fun i hi => hpin i (List.mem_cons_of_mem _ hi)) (position + 1) line h

/-- Inputs and a context whose texts stand on their lines. -/
structure Plain (inputs : List InputAssignment) (ctx : GenerationContext) : Prop where
  version : FitsLine ctx.toolVersion.toList
  platform : FitsLine ctx.platform.toList
  applications : ∀ input ∈ inputs, FitsLine input.application.toList
  sensors : ∀ input ∈ inputs, FitsLine input.sensor.toList
  pins : ∀ input ∈ inputs, FitsLine (trim input.pin.toList)

variable {inputs : List InputAssignment} {ctx : GenerationContext}

theorem fitsLine_headLines (hversion : FitsLine ctx.toolVersion.toList)
    (hplatform : FitsLine ctx.platform.toList) :
    ∀ line ∈ headLines ctx, FitsLine line := by
  have hrule : FitsLine rule := by
    unfold rule
    exact fitsLine_of_notMem (by simp) (by simp)
  have htitle : FitsLine "// Static input configuration".toList :=
    fitsLine_of_notMem (by simp) (by simp)
  have hnote : FitsLine "// Do not edit by hand; re-run \x60regc generate\x60 instead.".toList :=
    fitsLine_of_notMem (by simp) (by simp)
  unfold headLines
  simp only [List.mem_cons, List.not_mem_nil, or_false, forall_eq_or_imp, forall_eq]
  exact ⟨hrule, htitle, fitsLine_bannerLine hversion hplatform, fitsLine_timestampLine ctx,
    hnote, hrule⟩

theorem Plain.fitsLine (h : Plain inputs ctx) : ∀ line ∈ innerLines inputs ctx, FitsLine line := by
  intro line hline
  rw [innerLines, List.mem_append, List.mem_cons, List.mem_cons, List.mem_append,
    List.mem_singleton] at hline
  rcases hline with hline | rfl | rfl | hline | rfl
  · exact fitsLine_headLines h.version h.platform line hline
  · exact fitsLine_nil
  · exact fitsLine_countLine _
  · exact fitsLine_linesFrom h.applications h.sensors h.pins 0 line hline
  · exact fitsLine_nil

open MarkedBlock in
theorem Plain.delimited (h : Plain inputs ctx) :
    Delimited .standard (textBytes (render inputs ctx .standard)) := by
  have htext : (render inputs ctx .standard).toList = BlockMarkers.standard.start.toList
      ++ ofLines ([] :: innerLines inputs ctx) ++ BlockMarkers.standard.stop.toList ++ ['\n'] := by
    have hnewline : "\n".toList = ['\n'] := rfl
    simp only [render, String.toList_append, toList_body, hnewline]
  have hneedle : '\n' ∉ BlockMarkers.standard.stop.toList := by decide
  rw [textBytes, htext]
  refine delimited_of_chars (by decide) fun k hk hp => ?_
  rw [List.append_assoc] at hp
  obtain ⟨line, hline, hin⟩ := infix_line_of_prefix_drop hneedle hk hp
  rcases List.mem_cons.mp hline with rfl | hline
  · exact fitsLine_nil.2 hin
  · exact (h.fitsLine line hline).2 hin

end FirmwareCatalog.ConfigBlock
