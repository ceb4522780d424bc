import Mathlib.Data.List.Induction
import Ralf.Core.VersionNumber

/-!
# The texts of versions

A version text is one to four fields between dots. Each field is a decimal number of 32 bits
without leading zeros.

`fromString` closes a field in two places: at a dot, and at the end of the text. The two do not
agree with the texts above in all cases: a dot may end the text, a field of `UINT32_MAX` is refused
before a dot, and the size of the last field is not checked. `fromString_exact_iff` says that these
are the only differences.
-/

namespace VersionNumber

variable {s segment : Text} {init : List Text} {last : Text} {fields : List UInt32}

/-! ## Fields in decimal -/

/-- Digits without a leading zero. -/
structure IsField (segment : Text) : Prop where
  ne_nil : segment ≠ []
  digits : ∀ ch ∈ segment, ch.isDigit = true
  noLeadingZero : leadingZero segment = false

theorem isField_iff : IsField segment ↔
    segment ≠ [] ∧ segment.all Char.isDigit = true ∧ leadingZero segment = false := by
  rw [List.all_eq_true]
  exact ⟨fun h => ⟨h.1, h.2, h.3⟩, fun h => ⟨h.1, h.2.1, h.2.2⟩⟩

instance : DecidablePred IsField := fun _ => decidable_of_iff' _ isField_iff

/-- The number that a field stands for. -/
def fieldNumber (segment : Text) : Nat := Nat.ofDigitChars 10 segment 0

theorem leadingZero_append {first : Text} (hfirst : first ≠ []) (rest : Text)
    (h : leadingZero first = true) : leadingZero (first ++ rest) = true := by
  unfold leadingZero at h ⊢
  rw [decide_eq_true_iff] at h ⊢
  rw [List.length_append, List.head?_append_of_ne_nil _ hfirst]
  exact ⟨Nat.lt_of_lt_of_le h.1 (Nat.le_add_right _ _), h.2⟩

/-- A digit is the character of its number. -/
theorem digitChar_of_isDigit {ch : Char} (h : ch.isDigit = true) :
    ch.toNat - '0'.toNat < 10 ∧ (ch.toNat - '0'.toNat).digitChar = ch := by
  have hrange := Numeral.toNat_of_isDigit h
  have hlt : ch.toNat - '0'.toNat < 10 := by
    show ch.toNat - 48 < 10
    omega
  refine ⟨hlt, Char.toNat_inj.mp ?_⟩
  rw [Nat.toNat_digitChar_of_lt_ten hlt]
  exact Nat.add_sub_cancel' hrange.1

/-- A field is the only one of its number. -/
theorem IsField.toDigits (h : IsField segment) :
    Nat.toDigits 10 (fieldNumber segment) = segment := by
  unfold fieldNumber
  induction segment using List.reverseRecOn with
  | nil => exact absurd rfl h.ne_nil
  | append_singleton init ch ih =>
    obtain ⟨hlt, hchar⟩ := digitChar_of_isDigit (h.digits ch (by simp))
    rw [Nat.ofDigitChars_append, Nat.ofDigitChars_cons, Nat.ofDigitChars_nil]
    by_cases hinit : init = []
    · rw [hinit, Nat.ofDigitChars_nil, Nat.mul_zero, Nat.zero_add, Nat.toDigits_of_lt_base hlt,
        hchar]
      rfl
    have hfield : IsField init :=
      ⟨hinit, fun c hc => h.digits c (List.mem_append_left _ hc), by
        rw [← Bool.not_eq_true]
        intro hzero
        have hbad := leadingZero_append hinit [ch] hzero
        rw [h.noLeadingZero] at hbad
        cases hbad⟩
    have hdigits := ih hfield
    have hpos : 0 < Nat.ofDigitChars 10 init 0 := by
      refine Nat.pos_of_ne_zero fun hzero => ?_
      rw [hzero, Nat.toDigits_zero] at hdigits
      have hgood := h.noLeadingZero
      rw [← hdigits] at hgood
      cases hgood
    rw [← Nat.toDigits_append_toDigits (by decide) hpos hlt, hdigits, Nat.toDigits_of_lt_base hlt,
      hchar]

/-- The field of a segment, as it is stored. -/
def fieldOf (segment : Text) : UInt32 := UInt32.ofNat (fieldNumber segment)

theorem IsField.fieldText (h : IsField segment) (hlt : fieldNumber segment < 2 ^ 32) :
    VersionNumber.fieldText (fieldOf segment) = segment := by
  unfold VersionNumber.fieldText fieldOf
  rw [UInt32.toNat_ofNat_of_lt' hlt]
  exact h.toDigits

theorem IsField.length_le (h : IsField segment) (hlt : fieldNumber segment < 2 ^ 32) :
    segment.length ≤ 30 := by
  rw [← h.fieldText hlt]
  exact fieldText_length_le _

/-! ## The texts -/

/-- What is between the dots. -/
def segments (s : Text) : List Text := s.splitOn '.'

/-- One to four fields of 32 bits between single dots. -/
def WellFormed (s : Text) : Prop :=
  (segments s).length ≤ kMaxFields ∧
    ∀ segment ∈ segments s, IsField segment ∧ fieldNumber segment < 2 ^ 32

instance : DecidablePred WellFormed := fun _ => inferInstanceAs (Decidable (_ ∧ _))

/-- The fields that a dot can close: the parser wants them to be below the maximum. -/
def Closed (segments : List Text) : Prop :=
  ∀ segment ∈ segments, IsField segment ∧ fieldNumber segment < uint32Max.toNat

/-- The digits of the last field, as far as they fit in the buffer. -/
def Buffered (segment : Text) : Prop :=
  (∀ ch ∈ segment, ch.isDigit = true) ∧ segment.length ≤ 30

/-- The texts that are not read as they should be. -/
inductive Misread (s : Text) : Prop
  | dotAtEnd {init : List Text} (hsegments : segments s = init ++ [[]]) (hinit : init ≠ [])
      (hclosed : Closed init) (hlen : init.length ≤ kMaxFields)
  | maxBeforeDot {init : List Text} {last : Text} (hsegments : segments s = init ++ [last])
      (hwell : WellFormed s) (hclosed : ¬ Closed init)
  | largeLast {init : List Text} {last : Text} (hsegments : segments s = init ++ [last])
      (hclosed : Closed init) (hlen : init.length < kMaxFields) (hfield : IsField last)
      (hbuffer : last.length ≤ 30) (hlarge : 2 ^ 32 ≤ fieldNumber last)

theorem segments_concat (s : Text) : ∃ init last, segments s = init ++ [last] :=
  ⟨_, _, (List.dropLast_append_getLast (List.splitOn_ne_nil '.' s)).symm⟩

theorem segments_no_dot (h : segment ∈ segments s) : '.' ∉ segment := by
  unfold segments at h
  induction s generalizing segment with
  | nil =>
    rw [List.splitOn_nil, List.mem_singleton] at h
    rw [h]
    exact List.not_mem_nil
  | cons ch s ih =>
    rw [List.splitOn_cons_eq_if_modifyHead] at h
    split at h
    · rcases List.mem_cons.mp h with rfl | h
      · exact List.not_mem_nil
      · exact ih h
    · next hne =>
      obtain ⟨first, rest, hsplit⟩ := List.exists_cons_of_ne_nil (List.splitOn_ne_nil '.' s)
      rw [hsplit] at h ih
      rcases List.mem_cons.mp h with rfl | h
      · rw [List.mem_cons, not_or]
        exact ⟨fun heq => hne (by rw [heq, beq_self_eq_true]), ih List.mem_cons_self⟩
      · exact ih (List.mem_cons_of_mem _ h)

/-- The text has its segments with dots between them. -/
theorem intercalate_segments (h : segments s = init ++ [last]) :
    ['.'].intercalate (init ++ [last]) = s := by
  rw [← h]
  exact List.intercalate_splitOn '.'

theorem wellFormed_iff (h : segments s = init ++ [last]) : WellFormed s ↔
    init.length < kMaxFields ∧
      (∀ segment ∈ init, IsField segment ∧ fieldNumber segment < 2 ^ 32) ∧
      IsField last ∧ fieldNumber last < 2 ^ 32 := by
  unfold WellFormed
  rw [h, List.length_append, List.forall_mem_append, List.forall_mem_singleton]
  rfl

/-! ## Parsing the segments -/

/-- The result is `a` under a condition, and an error otherwise. -/
def OkWhen {α : Type} (p : Prop) (result : Result α) (a : α) : Prop :=
  p ∧ result = .ok a ∨ ¬ p ∧ ∃ error, result = .error error

theorem OkWhen.congr {α : Type} {p q : Prop} {result : Result α} {a : α} (h : OkWhen p result a)
    (hiff : p ↔ q) : OkWhen q result a := by
  rwa [← propext hiff]

/-- One step and then another. -/
theorem OkWhen.next {α β : Type} {p q : Prop} {result : Result α} {a : α} {b : β}
    {f : α → Result β} (h : OkWhen p result a) (hnext : p → OkWhen q (f a) b) :
    OkWhen (p ∧ q) (result.bind f) b := by
  rcases h with ⟨hp, rfl⟩ | ⟨hp, error, rfl⟩
  · exact (hnext hp).congr ⟨fun hq => ⟨hp, hq⟩, fun h => h.2⟩
  · exact .inr ⟨fun h => hp h.1, error, rfl⟩

theorem parseChars_cons_bind (p : FieldParser) (ch : Char) (s : Text) :
    parseChars p (ch :: s) = (parseChar p ch).bind fun q => parseChars q s := by
  rw [parseChars_cons]
  cases parseChar p ch <;> rfl

theorem parseChars_append_bind (p : FieldParser) (s t : Text) :
    parseChars p (s ++ t) = (parseChars p s).bind fun q => parseChars q t := by
  rw [parseChars_append]
  cases parseChars p s <;> rfl

/-- The characters of a segment are collected as long as they are digits and fit. -/
theorem parseChars_collect {collected : Text} (hlen : collected.length ≤ 30)
    (hdot : '.' ∉ segment) :
    OkWhen ((∀ ch ∈ segment, ch.isDigit = true) ∧ collected.length + segment.length ≤ 30)
      (parseChars ⟨fields, collected⟩ segment) ⟨fields, collected ++ segment⟩ := by
  induction segment generalizing collected with
  | nil => exact .inl ⟨⟨by simp, hlen⟩, by rw [List.append_nil]; rfl⟩
  | cons ch segment ih =>
    rw [List.mem_cons, not_or] at hdot
    rw [parseChars_cons, List.forall_mem_cons, List.length_cons]
    unfold parseChar
    dsimp only
    rw [if_neg (Ne.symm hdot.1)]
    by_cases hdigit : ch.isDigit = true
    · rw [if_pos hdigit]
      by_cases hfull : 30 ≤ collected.length
      · rw [if_pos hfull]
        exact .inr ⟨by omega, _, rfl⟩
      · rw [if_neg hfull]
        have hrest := @ih (collected ++ [ch]) (by
          rw [List.length_append, List.length_singleton]
          omega) hdot.2
        rw [List.append_assoc, List.singleton_append, List.length_append, List.length_singleton,
          Nat.add_assoc, Nat.add_comm 1] at hrest
        simpa only [hdigit, true_and] using hrest
    · rw [if_neg hdigit]
      exact .inr ⟨fun h => hdigit h.1.1, _, rfl⟩

theorem parseChars_segment (hdot : '.' ∉ segment) :
    OkWhen (Buffered segment) (parseChars ⟨fields, []⟩ segment) ⟨fields, segment⟩ := by
  have hcollect := @parseChars_collect segment fields [] (Nat.zero_le _) hdot
  rwa [List.length_nil, Nat.zero_add] at hcollect

/-- A dot closes a field below the maximum, if there is room for it. -/
theorem parseChar_dot_closes (hbuffer : Buffered segment) :
    OkWhen
      (fields.length < kMaxFields ∧ IsField segment ∧ fieldNumber segment < uint32Max.toNat)
      (parseChar ⟨fields, segment⟩ '.') ⟨fields ++ [fieldOf segment], []⟩ := by
  unfold parseChar
  dsimp only
  rw [if_pos rfl]
  split
  · next hfull => exact .inr ⟨fun h => absurd h.1 (Nat.not_lt.mpr hfull), _, rfl⟩
  next hroom =>
  split
  · next hempty => exact .inr ⟨fun h => h.2.1.ne_nil hempty, _, rfl⟩
  next hne =>
  split
  · next hzero =>
    refine .inr ⟨fun h => ?_, _, rfl⟩
    rw [h.2.1.noLeadingZero] at hzero
    cases hzero
  next hzero =>
  have hfield : IsField segment := ⟨hne, hbuffer.1, Bool.not_eq_true _ ▸ hzero⟩
  -- what does not fit in 64 bits is read as their maximum
  have hstrtoul : strtoul segment < uint32Max.toNat ↔ fieldNumber segment < uint32Max.toNat := by
    rw [strtoul_segment hne hbuffer.1]
    exact ⟨fun h => (min_lt_iff.mp h).resolve_right (by decide), fun h => min_lt_of_left_lt h⟩
  split
  · next hlarge =>
    exact .inr ⟨fun h => absurd (hstrtoul.mpr h.2.2) (Nat.not_lt.mpr hlarge), _, rfl⟩
  · next hsmall =>
    have hlt := hstrtoul.mp (Nat.not_le.mp hsmall)
    refine .inl ⟨⟨Nat.not_le.mp hroom, hfield, hlt⟩, ?_⟩
    have hvalue : strtoul segment = fieldNumber segment := by
      rw [strtoul_segment hne hbuffer.1]
      exact Nat.min_eq_left (Nat.le_of_lt (Nat.lt_trans hlt (by decide)))
    rw [hvalue]
    rfl

/-- What the loop makes of the segments of a text. -/
theorem parseChars_segments (hinit : ∀ segment ∈ init, '.' ∉ segment) (hlast : '.' ∉ last)
    (hlen : fields.length ≤ kMaxFields) :
    OkWhen (Closed init ∧ fields.length + init.length ≤ kMaxFields ∧ Buffered last)
      (parseChars ⟨fields, []⟩ (['.'].intercalate (init ++ [last])))
      ⟨fields ++ init.map fieldOf, last⟩ := by
  induction init generalizing fields with
  | nil =>
    rw [List.nil_append, List.intercalate_singleton, List.map_nil, List.append_nil]
    refine (parseChars_segment hlast).congr ⟨fun h => ⟨?_, hlen, h⟩, fun h => h.2.2⟩
    exact fun segment hsegment => absurd hsegment List.not_mem_nil
  | cons segment init ih =>
    obtain ⟨hdot, hrest⟩ := List.forall_mem_cons.mp hinit
    have htext : ['.'].intercalate (segment :: init ++ [last]) =
        segment ++ '.' :: ['.'].intercalate (init ++ [last]) := by
      rw [List.cons_append, List.intercalate_cons_of_ne_nil (by simp), List.append_assoc]
      rfl
    have hdotted : Buffered segment → OkWhen
        ((fields.length < kMaxFields ∧ IsField segment ∧
          fieldNumber segment < uint32Max.toNat) ∧ Closed init ∧
            (fields ++ [fieldOf segment]).length + init.length ≤ kMaxFields ∧ Buffered last)
        (parseChars ⟨fields, segment⟩ ('.' :: ['.'].intercalate (init ++ [last])))
        ⟨fields ++ [fieldOf segment] ++ init.map fieldOf, last⟩ := by
      intro hbuffer
      rw [parseChars_cons_bind]
      refine (@parseChar_dot_closes segment fields hbuffer).next fun hcloses => ih hrest ?_
      rw [List.length_append]
      exact hcloses.1
    rw [List.append_assoc] at hdotted
    rw [htext, parseChars_append_bind, List.map_cons]
    refine ((@parseChars_segment segment fields hdot).next hdotted).congr ?_
    rw [List.length_append, List.length_singleton, List.length_cons]
    unfold Closed
    rw [List.forall_mem_cons]
    constructor
    · rintro ⟨-, ⟨-, hfield, hlt⟩, hclosed, hroom, hbuffer⟩
      exact ⟨⟨⟨hfield, hlt⟩, hclosed⟩, by omega, hbuffer⟩
    · rintro ⟨⟨⟨hfield, hlt⟩, hclosed⟩, hroom, hbuffer⟩
      have hfits := hfield.length_le (Nat.lt_trans hlt (by decide))
      exact ⟨⟨hfield.digits, hfits⟩, ⟨by omega, hfield, hlt⟩, hclosed, by omega, hbuffer⟩

/-! ## Which texts are read -/

/-- A text is read without a fault, as a version exactly if it is one, and then as the version
that is printed so. -/
def ReadRight (s : Text) : Prop :=
  ∃ result, fromString s = .ok result ∧ ((∃ v, result = .ok v) ↔ WellFormed s) ∧
    ∀ v, result = .ok v → v.toString = s

theorem fieldsText_eq (fs : List UInt32) :
    fieldsText fs = ['.'].intercalate (fs.map fieldText) := by
  induction fs with
  | nil => rfl
  | cons f fs ih =>
    cases fs with
    | nil => exact List.intercalate_singleton.symm
    | cons g fs =>
      rw [List.map_cons, List.intercalate_cons_of_ne_nil (by simp), ← ih, List.append_assoc]
      rfl

/-- The fields of well-formed segments are printed as these segments. -/
theorem map_fieldText (h : ∀ segment ∈ init, IsField segment ∧ fieldNumber segment < 2 ^ 32) :
    (init.map fieldOf).map fieldText = init := by
  rw [List.map_map]
  refine (List.map_congr_left fun segment hsegment => ?_).trans (List.map_id init)
  exact (h segment hsegment).1.fieldText (h segment hsegment).2

theorem Closed.bounded (h : Closed init) :
    ∀ segment ∈ init, IsField segment ∧ fieldNumber segment < 2 ^ 32 :=
  fun segment hsegment => ⟨(h segment hsegment).1, Nat.lt_trans (h segment hsegment).2 (by decide)⟩

/-- The text of a version whose fields are read from well-formed segments. -/
theorem toString_of_fields {v : VersionNumber} {segments : List Text}
    (hwell : ∀ segment ∈ segments, IsField segment ∧ fieldNumber segment < 2 ^ 32)
    (hfields : v.fields = segments.map fieldOf) : v.toString = ['.'].intercalate segments := by
  unfold toString
  rw [hfields, fieldsText_eq, map_fieldText hwell]

theorem readRight_of_error {error : Error} (h : fromString s = .ok (.error error)) :
    ReadRight s ↔ ¬ WellFormed s := by
  constructor
  · rintro ⟨result, hresult, haccepts, -⟩ hwell
    obtain ⟨v, rfl⟩ := haccepts.mpr hwell
    cases h.symm.trans hresult
  · exact fun hwell => ⟨_, h, ⟨fun ⟨v, hv⟩ => (nomatch hv), fun h => absurd h hwell⟩,
      fun v hv => (nomatch hv)⟩

theorem readRight_of_ok {v : VersionNumber} (h : fromString s = .ok (.ok v)) :
    ReadRight s ↔ WellFormed s ∧ v.toString = s := by
  constructor
  · rintro ⟨result, hresult, haccepts, htext⟩
    cases h.symm.trans hresult
    exact ⟨haccepts.mp ⟨v, rfl⟩, htext v rfl⟩
  · rintro ⟨hwell, htext⟩
    refine ⟨_, h, ⟨fun _ => hwell, fun _ => ⟨v, rfl⟩⟩, fun w hw => ?_⟩
    cases hw
    exact htext

theorem misread_concat (h : segments s = init ++ [last]) : Misread s ↔
    last = [] ∧ init ≠ [] ∧ Closed init ∧ init.length ≤ kMaxFields ∨
      WellFormed s ∧ ¬ Closed init ∨
      Closed init ∧ init.length < kMaxFields ∧ IsField last ∧ last.length ≤ 30 ∧
        2 ^ 32 ≤ fieldNumber last := by
  constructor
  · intro hmisread
    cases hmisread with
    | dotAtEnd hsegments hinit hclosed hlen =>
      obtain ⟨rfl, hlast⟩ := List.append_inj' (h.symm.trans hsegments) rfl
      exact .inl ⟨List.singleton_inj.mp hlast, hinit, hclosed, hlen⟩
    | maxBeforeDot hsegments hwell hclosed =>
      obtain ⟨rfl, -⟩ := List.append_inj' (h.symm.trans hsegments) rfl
      exact .inr (.inl ⟨hwell, hclosed⟩)
    | largeLast hsegments hclosed hlen hfield hbuffer hlarge =>
      obtain ⟨rfl, hlast⟩ := List.append_inj' (h.symm.trans hsegments) rfl
      cases hlast
      exact .inr (.inr ⟨hclosed, hlen, hfield, hbuffer, hlarge⟩)
  · rintro (⟨rfl, hinit, hclosed, hlen⟩ | ⟨hwell, hclosed⟩ |
      ⟨hclosed, hlen, hfield, hbuffer, hlarge⟩)
    · exact .dotAtEnd h hinit hclosed hlen
    · exact .maxBeforeDot h hwell hclosed
    · exact .largeLast h hclosed hlen hfield hbuffer hlarge

/-- A text whose loop ends with an error. -/
theorem readRight_of_parse_error (h : segments s = init ++ [last])
    (hnot : ¬ (Closed init ∧ init.length ≤ kMaxFields ∧ Buffered last)) {error : Error}
    (hparse : parseChars ⟨[], []⟩ s = .error error) : ReadRight s ↔ ¬ Misread s := by
  have hread : fromString s = .ok (.error error) := by
    unfold fromString
    rw [hparse]
  rw [readRight_of_error hread, misread_concat h, not_iff_not]
  constructor
  · intro hwell
    refine .inr (.inl ⟨hwell, fun hclosed => hnot ?_⟩)
    obtain ⟨hlen, -, hfield, hlt⟩ := (wellFormed_iff h).mp hwell
    exact ⟨hclosed, hlen.le, hfield.digits, hfield.length_le hlt⟩
  · rintro (⟨rfl, -, hclosed, hlen⟩ | ⟨hwell, -⟩ | ⟨hclosed, hlen, hfield, hbuffer, -⟩)
    · exact absurd ⟨hclosed, hlen, by simp, Nat.zero_le _⟩ hnot
    · exact hwell
    · exact absurd ⟨hclosed, hlen.le, hfield.digits, hbuffer⟩ hnot

/-- A text that ends with a dot, or an empty one. -/
theorem readRight_of_empty_last (h : segments s = init ++ [[]])
    (hclosed : Closed init) (hlen : init.length ≤ kMaxFields)
    (hread : fromString s = .ok (ofFields (init.map fieldOf))) :
    ReadRight s ↔ ¬ Misread s := by
  have hwell : ¬ WellFormed s := fun hwell => ((wellFormed_iff h).mp hwell).2.2.1.ne_nil rfl
  unfold ofFields at hread
  split at hread
  · next hfields =>
    rw [readRight_of_ok hread]
    refine iff_of_false (fun hright => hwell hright.1) (not_not.mpr ?_)
    refine .dotAtEnd h (fun hinit => hfields.1 ?_) hclosed hlen
    rw [hinit, List.map_nil]
  · next hfields =>
    rw [readRight_of_error hread, misread_concat h]
    refine iff_of_true hwell ?_
    rintro (⟨-, hinit, -, -⟩ | ⟨hbad, -⟩ | ⟨-, -, hfield, -⟩)
    · refine hfields ⟨fun hmap => hinit (List.map_eq_nil_iff.mp hmap), ?_⟩
      rwa [List.length_map]
    · exact hwell hbad
    · exact hfield.ne_nil rfl

/-- The last field of a text that is not the fifth. -/
theorem readRight_of_last (h : segments s = init ++ [last])
    (hclosed : Closed init) (hlen : init.length < kMaxFields) (hfield : IsField last)
    (hbuffer : last.length ≤ 30)
    (hread : fromString s =
      match stoul last with
      | .error fault => .error fault
      | .ok value => .ok (ofFields (init.map fieldOf ++ [UInt32.ofNat value]))) :
    ReadRight s ↔ ¬ Misread s := by
  have hfields : (init ++ [last]).map fieldOf ≠ [] ∧
      ((init ++ [last]).map fieldOf).length ≤ kMaxFields := by
    rw [List.length_map, List.length_append]
    exact ⟨by simp, hlen⟩
  have hvalue : ofFields (init.map fieldOf ++ [UInt32.ofNat (fieldNumber last)]) =
      .ok ⟨(init ++ [last]).map fieldOf, hfields.1, hfields.2⟩ := by
    have hmap : init.map fieldOf ++ [UInt32.ofNat (fieldNumber last)] =
        (init ++ [last]).map fieldOf := by
      rw [List.map_append]
      rfl
    rw [hmap]
    exact dif_pos hfields
  have hnumber : fromString s =
      if sizeMax < fieldNumber last then .error .outOfRange
      else .ok (.ok ⟨(init ++ [last]).map fieldOf, hfields.1, hfields.2⟩) := by
    rw [hread, ← hvalue]
    rw [stoul_segment hfield.ne_nil hfield.digits]
    unfold fieldNumber
    by_cases hover : sizeMax < Nat.ofDigitChars 10 last 0
    · rw [if_pos hover, if_pos hover]
    · rw [if_neg hover, if_neg hover]
  by_cases hlarge : 2 ^ 32 ≤ fieldNumber last
  · have hmisread : Misread s := .largeLast h hclosed hlen hfield hbuffer hlarge
    have hwell : ¬ WellFormed s := fun hwell =>
      absurd ((wellFormed_iff h).mp hwell).2.2.2 (Nat.not_lt.mpr hlarge)
    refine iff_of_false ?_ (not_not.mpr hmisread)
    split at hnumber
    · rintro ⟨result, hresult, -⟩
      cases hnumber.symm.trans hresult
    · rw [readRight_of_ok hnumber]
      exact fun hright => hwell hright.1
  · have hlt := Nat.not_le.mp hlarge
    have hall : ∀ segment ∈ init ++ [last], IsField segment ∧ fieldNumber segment < 2 ^ 32 := by
      rw [List.forall_mem_append, List.forall_mem_singleton]
      exact ⟨hclosed.bounded, hfield, hlt⟩
    rw [if_neg (Nat.not_lt.mpr (Nat.le_of_lt (Nat.lt_trans hlt (by decide))))] at hnumber
    rw [readRight_of_ok hnumber, toString_of_fields hall rfl, intercalate_segments h,
      misread_concat h]
    refine iff_of_true ⟨(wellFormed_iff h).mpr ⟨hlen, hclosed.bounded, hfield, hlt⟩, rfl⟩ ?_
    rintro (⟨hempty, -⟩ | ⟨-, hbad⟩ | ⟨-, -, -, -, hbad⟩)
    · exact hfield.ne_nil hempty
    · exact hbad hclosed
    · exact hlarge hbad

/-- A text whose loop comes to its end. -/
theorem readRight_of_parse_ok (h : segments s = init ++ [last])
    (hclosed : Closed init) (hlen : init.length ≤ kMaxFields) (hbuffer : Buffered last)
    (hparse : parseChars ⟨[], []⟩ s = .ok ⟨init.map fieldOf, last⟩) :
    ReadRight s ↔ ¬ Misread s := by
  have hread : fromString s = finishFields ⟨init.map fieldOf, last⟩ := by
    unfold fromString
    rw [hparse]
  unfold finishFields at hread
  dsimp only at hread
  rw [List.length_map] at hread
  split at hread
  · next hempty =>
    subst hempty
    exact readRight_of_empty_last h hclosed hlen hread
  next hne =>
  split at hread
  · next hfull =>
    rw [readRight_of_error hread, misread_concat h]
    have hwell : ¬ WellFormed s := fun hwell =>
      absurd ((wellFormed_iff h).mp hwell).1 (Nat.not_lt.mpr hfull)
    refine iff_of_true hwell ?_
    rintro (⟨hempty, -⟩ | ⟨hbad, -⟩ | ⟨-, hroom, -⟩)
    · exact hne hempty
    · exact hwell hbad
    · exact absurd hroom (Nat.not_lt.mpr hfull)
  next hroom =>
  split at hread
  · next hzero =>
    have hfield : ¬ IsField last := fun hfield => by
      rw [hfield.noLeadingZero] at hzero
      cases hzero
    have hwell : ¬ WellFormed s := fun hwell => hfield ((wellFormed_iff h).mp hwell).2.2.1
    rw [readRight_of_error hread, misread_concat h]
    refine iff_of_true hwell ?_
    rintro (⟨hempty, -⟩ | ⟨hbad, -⟩ | ⟨-, -, hgood, -⟩)
    · exact hne hempty
    · exact hwell hbad
    · exact hfield hgood
  · next hzero =>
    exact readRight_of_last h hclosed (Nat.not_le.mp hroom)
      ⟨hne, hbuffer.1, Bool.not_eq_true _ ▸ hzero⟩ hbuffer.2 hread

/-- A text is read as it should be unless it is of one of three kinds, and a version is read
back from its text unless a field before the last has the maximum. -/
theorem fromString_exact_iff (s : Text) (v : VersionNumber) :
    (ReadRight s ↔ ¬ Misread s) ∧ (fromString v.toString = .ok (.ok v) ↔ v.Printable) := by
  constructor
  · obtain ⟨init, last, h⟩ := segments_concat s
    have hdots : ∀ segment ∈ init ++ [last], '.' ∉ segment :=
      fun segment hsegment => segments_no_dot (h ▸ hsegment)
    have hparse := @parseChars_segments init last []
      (fun segment hsegment => hdots segment (List.mem_append_left _ hsegment))
      (hdots last (List.mem_append_right _ List.mem_cons_self)) (Nat.zero_le _)
    rw [intercalate_segments h, List.nil_append, List.length_nil, Nat.zero_add] at hparse
    rcases hparse with ⟨⟨hclosed, hlen, hbuffer⟩, hparse⟩ | ⟨hnot, error, hparse⟩
    · exact readRight_of_parse_ok h hclosed hlen hbuffer hparse
    · exact readRight_of_parse_error h hnot hparse
  · rcases fromString_toString v with ⟨hprintable, hread⟩ | ⟨hprintable, error, hread⟩
    · exact iff_of_true hread hprintable
    · refine iff_of_false (fun hok => ?_) hprintable
      cases hok.symm.trans hread

/-- A dot may end a text, a last field may be too large, and a field before a dot may not have the
maximum. -/
theorem not_fromString_exact :
    ¬ ReadRight ['1', '.'] ∧ ¬ ReadRight ['4', '2', '9', '4', '9', '6', '7', '2', '9', '6'] ∧
      ¬ fromString (ofTwo uint32Max 0).toString = .ok (.ok (ofTwo uint32Max 0)) := by
  have hdot : fromString ['1', '.'] = .ok (.ok (ofOne 1)) := by decide
  have hlarge : fromString ['4', '2', '9', '4', '9', '6', '7', '2', '9', '6'] =
      .ok (.ok (ofOne 0)) := by decide +kernel
  refine ⟨?_, ?_, by decide +kernel⟩
  · rw [readRight_of_ok hdot]
    decide
  · rw [readRight_of_ok hlarge]
    decide +kernel

end VersionNumber
