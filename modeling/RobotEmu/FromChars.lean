import RobotEmu.Arithmetic
import RobotEmu.BigEndian

/-! `std::from_chars` as the standard defines it, for unsigned integers in base ten and for doubles in the
general format. It takes the longest start of the text that matches its pattern and leaves the rest. A
numeral is kept in its parts, so that what was matched and what it denotes are two questions. -/

namespace FromChars

/-- `std::errc` of a result. -/
inductive Errc where
  | ok
  | invalidArgument
  | resultOutOfRange
  deriving DecidableEq

/-- The text from `ptr` on, and what the value is afterwards. -/
structure Result (α : Type) where
  ec : Errc
  rest : List Byte
  value : α
  deriving DecidableEq

def isDigit (c : Byte) : Bool := 0x30 ≤ c ∧ c ≤ 0x39

/-- The number that a row of digits spells. -/
def decimal (digits : List Byte) : Nat := digits.foldl (fun n c => 10 * n + (c.toNat - 48)) 0

/-- No sign is part of the pattern of an unsigned type. -/
def unsigned {w : Nat} (text : List Byte) (value : BitVec w) : Result (BitVec w) :=
  let digits := text.takeWhile isDigit
  if digits = [] then ⟨.invalidArgument, text, value⟩
  else if decimal digits < 2 ^ w then ⟨.ok, text.dropWhile isDigit, BitVec.ofNat w (decimal digits)⟩
  else ⟨.resultOutOfRange, text.dropWhile isDigit, value⟩

/-- A double with a minus sign before it or with none. -/
def withSign (sign : List Byte) (x : Binary64) : Binary64 := if sign = [0x2D] then -x else x

/-! ### Numerals -/

/-- The exponent of a numeral: `e` or `E`, a sign or none, and digits. -/
structure Exponent where
  marker : Byte
  sign : List Byte
  digits : List Byte

/-- A numeral: a minus sign or none, digits, a point and digits or neither, an exponent or none. -/
structure Numeral where
  sign : List Byte
  whole : List Byte
  fraction : Option (List Byte)
  exponent : Option Exponent

def Exponent.text (exponent : Exponent) : List Byte := exponent.marker :: (exponent.sign ++ exponent.digits)

def Exponent.value (exponent : Exponent) : Int :=
  if exponent.sign = [0x2D] then -decimal exponent.digits else decimal exponent.digits

structure Exponent.WellFormed (exponent : Exponent) : Prop where
  marker : exponent.marker = 0x65 ∨ exponent.marker = 0x45
  sign : exponent.sign = [] ∨ exponent.sign = [0x2B] ∨ exponent.sign = [0x2D]
  digits : exponent.digits.all isDigit
  nonempty : exponent.digits ≠ []

namespace Numeral

def fractionText (numeral : Numeral) : List Byte := numeral.fraction.elim [] (0x2E :: ·)

def exponentText (numeral : Numeral) : List Byte := numeral.exponent.elim [] Exponent.text

def text (numeral : Numeral) : List Byte :=
  numeral.sign ++ (numeral.whole ++ (numeral.fractionText ++ numeral.exponentText))

/-- A digit stands before or after the point. -/
structure WellFormed (numeral : Numeral) : Prop where
  sign : numeral.sign = [] ∨ numeral.sign = [0x2D]
  whole : numeral.whole.all isDigit
  fraction : (numeral.fraction.getD []).all isDigit
  nonempty : numeral.whole ≠ [] ∨ numeral.fraction.getD [] ≠ []
  exponent : ∀ exponent ∈ numeral.exponent, exponent.WellFormed

/-- The digits as one number, the point left out. -/
def significand (numeral : Numeral) : Nat := decimal (numeral.whole ++ numeral.fraction.getD [])

/-- The power of ten that the significand is multiplied with. -/
def scale (numeral : Numeral) : Int :=
  (numeral.exponent.elim 0 Exponent.value) - (numeral.fraction.getD []).length

/-- The double nearest to the numeral without its sign. -/
def magnitude (numeral : Numeral) : Binary64 :=
  Binary64.pack (Float.Model.UnpackedFloat.ofScientific Float.Model.Format.binary64 numeral.significand
    numeral.scale)

/-- A numeral is out of range if it rounds to infinity, or to zero without being zero. -/
def InRange (numeral : Numeral) : Prop :=
  numeral.magnitude.IsFinite ∧ (numeral.significand ≠ 0 → numeral.magnitude ≠ Arith.ofInt 0)

instance (numeral : Numeral) : Decidable numeral.InRange := inferInstanceAs (Decidable (_ ∧ _))

def toDouble (numeral : Numeral) : Binary64 := withSign numeral.sign numeral.magnitude

end Numeral

/-! ### Scanning -/

/-- A sign at the start of the text, if it is one of those allowed. -/
def scanSign (signs : List Byte) : List Byte → List Byte × List Byte
  | c :: rest => if c ∈ signs then ([c], rest) else ([], c :: rest)
  | [] => ([], [])

def scanFraction : List Byte → Option (List Byte) × List Byte
  | c :: rest => if c = 0x2E then (some (rest.takeWhile isDigit), rest.dropWhile isDigit) else (none, c :: rest)
  | [] => (none, [])

/-- Without a digit after the marker there is no exponent, and the numeral ends before the marker. -/
def scanExponent : List Byte → Option Exponent × List Byte
  | c :: rest =>
      let (sign, body) := scanSign [0x2B, 0x2D] rest
      if (c = 0x65 ∨ c = 0x45) ∧ body.takeWhile isDigit ≠ [] then
        (some ⟨c, sign, body.takeWhile isDigit⟩, body.dropWhile isDigit)
      else (none, c :: rest)
  | [] => (none, [])

def scanNumeral (text : List Byte) : Option (Numeral × List Byte) :=
  let (sign, body) := scanSign [0x2D] text
  let whole := body.takeWhile isDigit
  let (fraction, body) := scanFraction (body.dropWhile isDigit)
  let (exponent, rest) := scanExponent body
  if whole ≠ [] ∨ fraction.getD [] ≠ [] then some (⟨sign, whole, fraction, exponent⟩, rest) else none

def toLower (c : Byte) : Byte := if 0x41 ≤ c ∧ c ≤ 0x5A then c + 0x20 else c

def infText : List Byte := [0x69, 0x6E, 0x66]

def infinityText : List Byte := [0x69, 0x6E, 0x66, 0x69, 0x6E, 0x69, 0x74, 0x79]

def nanText : List Byte := [0x6E, 0x61, 0x6E]

/-- A letter, a digit or an underscore. -/
def isNanChar (c : Byte) : Bool := isDigit c ∨ (0x61 ≤ toLower c ∧ toLower c ≤ 0x7A) ∨ c = 0x5F

/-- What follows `nan`: characters in parentheses, if they are closed. -/
def scanNanTail : List Byte → List Byte
  | c :: rest =>
      if c = 0x28 ∧ (rest.dropWhile isNanChar).head? = some 0x29 then (rest.dropWhile isNanChar).tail
      else c :: rest
  | [] => []

def infinity : Binary64 := ⟨0x7FF0000000000000#64⟩

def quietNaN : Binary64 := ⟨0x7FF8000000000000#64⟩

/-- The spellings of infinity and of what is not a number, in any case of the letters. -/
def scanSpecial (text : List Byte) : Option (Binary64 × List Byte) :=
  let (sign, body) := scanSign [0x2D] text
  if (body.take 8).map toLower = infinityText then some (withSign sign infinity, body.drop 8)
  else if (body.take 3).map toLower = infText then some (withSign sign infinity, body.drop 3)
  else if (body.take 3).map toLower = nanText then some (withSign sign quietNaN, scanNanTail (body.drop 3))
  else none

def double (text : List Byte) (value : Binary64) : Result Binary64 :=
  match scanSpecial text with
  | some (special, rest) => ⟨.ok, rest, special⟩
  | none =>
      match scanNumeral text with
      | some (numeral, rest) =>
          if numeral.InRange then ⟨.ok, rest, numeral.toDouble⟩ else ⟨.resultOutOfRange, rest, value⟩
      | none => ⟨.invalidArgument, text, value⟩

example : double [0x2D, 0x31, 0x2E, 0x35, 0x65, 0x31, 0x20] (Arith.ofInt 0) = ⟨.ok, [0x20], Arith.ofInt (-15)⟩ := by
  decide +kernel

/-! ### Rows of digits -/

theorem takeWhile_digits {digits rest : List Byte} (hdigits : digits.all isDigit)
    (hrest : ∀ c ∈ rest.head?, isDigit c = false) : (digits ++ rest).takeWhile isDigit = digits := by
  rw [List.takeWhile_append_of_pos (List.all_eq_true.1 hdigits)]
  cases rest with
  | nil => exact List.append_nil digits
  | cons c rest => rw [List.takeWhile_cons_of_neg (by simp [hrest c rfl]), List.append_nil]

theorem dropWhile_digits {digits rest : List Byte} (hdigits : digits.all isDigit)
    (hrest : ∀ c ∈ rest.head?, isDigit c = false) : (digits ++ rest).dropWhile isDigit = rest := by
  rw [List.dropWhile_append_of_pos (List.all_eq_true.1 hdigits)]
  cases rest with
  | nil => rfl
  | cons c rest => rw [List.dropWhile_cons_of_neg (by simp [hrest c rfl])]

theorem all_takeWhile (text : List Byte) : (text.takeWhile isDigit).all isDigit :=
  List.all_eq_true.2 fun _ hmem => List.mem_takeWhile_imp hmem

theorem dropWhile_eq_nil {digits : List Byte} : digits.dropWhile isDigit = [] ↔ digits.all isDigit :=
  List.dropWhile_eq_nil_iff.trans List.all_eq_true.symm

theorem takeWhile_eq_self {digits : List Byte} (h : digits.all isDigit) : digits.takeWhile isDigit = digits :=
  List.takeWhile_eq_self_iff.2 (List.all_eq_true.1 h)

/-- All of the text is taken for an unsigned number exactly if it is a row of digits that spells a number of
the type. -/
theorem unsigned_ok_iff {w : Nat} {text : List Byte} {value number : BitVec w} :
    unsigned text value = ⟨.ok, [], number⟩ ↔
      text ≠ [] ∧ text.all isDigit ∧ decimal text = number.toNat := by
  rw [unsigned]
  constructor
  · intro h
    split_ifs at h with hempty hlt
    · cases h
    · obtain ⟨-, hrest, hnumber⟩ := Result.mk.inj h
      have hall := dropWhile_eq_nil.1 hrest
      rw [takeWhile_eq_self hall] at hempty hlt hnumber
      exact ⟨hempty, hall, by rw [← hnumber, BitVec.toNat_ofNat, Nat.mod_eq_of_lt hlt]⟩
    · cases h
  · rintro ⟨hempty, hall, hdecimal⟩
    rw [takeWhile_eq_self hall, if_neg hempty, hdecimal, if_pos number.isLt, dropWhile_eq_nil.2 hall,
      BitVec.ofNat_toNat, BitVec.setWidth_eq]

/-! ### The longest match of a text that is a numeral -/

theorem scanSign_of_mem {signs : List Byte} {c : Byte} (h : c ∈ signs) (rest : List Byte) :
    scanSign signs (c :: rest) = ([c], rest) := if_pos h

theorem scanSign_of_head {signs body : List Byte} (h : ∀ c ∈ body.head?, c ∉ signs) :
    scanSign signs body = ([], body) := by
  cases body with
  | nil => rfl
  | cons c rest => exact if_neg (h c rfl)

theorem scanSign_eq (signs text : List Byte) :
    text = (scanSign signs text).1 ++ (scanSign signs text).2 ∧
      ((scanSign signs text).1 = [] ∨ ∃ c ∈ signs, (scanSign signs text).1 = [c]) := by
  cases text with
  | nil => exact ⟨rfl, .inl rfl⟩
  | cons c rest =>
      by_cases hc : c ∈ signs
      · rw [scanSign_of_mem hc]
        exact ⟨rfl, .inr ⟨c, hc, rfl⟩⟩
      · rw [scanSign_of_head (by simpa using hc)]
        exact ⟨rfl, .inl rfl⟩

theorem scanExponent_text {exponent : Exponent} (h : exponent.WellFormed) :
    scanExponent exponent.text = (some exponent, []) := by
  have hdigit : ∀ c ∈ exponent.digits.head?, c ∉ [(0x2B : Byte), 0x2D] := by
    intro c hc hmem
    have hc := List.all_eq_true.1 h.digits c (List.mem_of_mem_head? hc)
    simp only [List.mem_cons, List.not_mem_nil, or_false] at hmem
    rcases hmem with rfl | rfl <;> exact absurd hc (by decide)
  have hsign : scanSign [0x2B, 0x2D] (exponent.sign ++ exponent.digits) = (exponent.sign, exponent.digits) := by
    rcases h.sign with hs | hs | hs
    · rw [hs, List.nil_append, scanSign_of_head hdigit]
    · rw [hs]
      exact scanSign_of_mem (by decide) _
    · rw [hs]
      exact scanSign_of_mem (by decide) _
  rw [Exponent.text, scanExponent, hsign]
  dsimp only
  rw [takeWhile_eq_self h.digits, dropWhile_eq_nil.2 h.digits, if_pos ⟨h.marker, h.nonempty⟩]

theorem scanExponent_eq (text : List Byte) :
    text = (scanExponent text).1.elim [] Exponent.text ++ (scanExponent text).2 ∧
      ∀ exponent ∈ (scanExponent text).1, exponent.WellFormed := by
  cases text with
  | nil => exact ⟨rfl, fun exponent h => by cases h⟩
  | cons c rest =>
      obtain ⟨hrest, hsign⟩ := scanSign_eq [0x2B, 0x2D] rest
      rw [scanExponent]
      dsimp only
      split_ifs with h
      · refine ⟨?_, ?_⟩
        · rw [Option.elim_some, Exponent.text, List.cons_append, List.append_assoc, List.takeWhile_append_dropWhile,
            ← hrest]
        · intro exponent hexponent
          rw [← Option.some.inj hexponent]
          refine ⟨h.1, ?_, all_takeWhile _, h.2⟩
          rcases hsign with hnone | ⟨c, hc, hs⟩
          · exact .inl hnone
          · simp only [List.mem_cons, List.not_mem_nil, or_false] at hc
            rcases hc with rfl | rfl
            · exact .inr (.inl hs)
            · exact .inr (.inr hs)
      · exact ⟨rfl, fun exponent h => by cases h⟩

namespace Numeral

variable {numeral : Numeral}

theorem head_exponentText (h : numeral.WellFormed) :
    ∀ c ∈ numeral.exponentText.head?, isDigit c = false ∧ c ≠ 0x2E := by
  intro c hc
  rw [exponentText] at hc
  cases hexponent : numeral.exponent with
  | none =>
      rw [hexponent] at hc
      cases hc
  | some exponent =>
      rw [hexponent] at hc
      obtain rfl := Option.some.inj hc
      rcases (h.exponent exponent hexponent).marker with hmarker | hmarker <;> rw [hmarker] <;> decide

theorem head_fractionText (h : numeral.WellFormed) :
    ∀ c ∈ (numeral.fractionText ++ numeral.exponentText).head?, isDigit c = false := by
  intro c hc
  rw [fractionText] at hc
  cases hfraction : numeral.fraction with
  | none =>
      rw [hfraction] at hc
      exact (head_exponentText h c hc).1
  | some digits =>
      rw [hfraction] at hc
      obtain rfl := Option.some.inj hc
      decide

/-- After its sign a numeral starts with a digit or with the point. -/
theorem exists_body_eq_cons (h : numeral.WellFormed) :
    ∃ c rest, numeral.whole ++ (numeral.fractionText ++ numeral.exponentText) = c :: rest ∧
      (isDigit c ∨ c = 0x2E) := by
  cases hwhole : numeral.whole with
  | cons c rest => exact ⟨c, _, rfl, .inl (List.all_eq_true.1 h.whole c (hwhole ▸ List.mem_cons_self))⟩
  | nil =>
      cases hfraction : numeral.fraction with
      | some digits => exact ⟨0x2E, digits ++ numeral.exponentText, by rw [fractionText, hfraction]; rfl, .inr rfl⟩
      | none =>
          rcases h.nonempty with hne | hne
          · exact absurd hwhole hne
          · rw [hfraction] at hne
            exact absurd rfl hne

theorem scanSign_text (h : numeral.WellFormed) : scanSign [0x2D] numeral.text =
    (numeral.sign, numeral.whole ++ (numeral.fractionText ++ numeral.exponentText)) := by
  rw [text]
  rcases h.sign with hs | hs
  · obtain ⟨c, rest, hbody, hc⟩ := exists_body_eq_cons h
    rw [hs, List.nil_append, hbody]
    apply scanSign_of_head
    intro d hd hmem
    obtain rfl := Option.some.inj hd
    rw [List.mem_singleton.1 hmem] at hc
    exact absurd hc (by decide)
  · rw [hs]
    exact scanSign_of_mem List.mem_cons_self _

theorem scanFraction_text (h : numeral.WellFormed) :
    scanFraction (numeral.fractionText ++ numeral.exponentText) = (numeral.fraction, numeral.exponentText) := by
  have hexponent := head_exponentText h
  rw [fractionText]
  cases hfraction : numeral.fraction with
  | some digits =>
      have hdigits : digits.all isDigit := by
        have hall := h.fraction
        rwa [hfraction] at hall
      have hstop : ∀ c ∈ numeral.exponentText.head?, isDigit c = false := fun c hc => (hexponent c hc).1
      change scanFraction (0x2E :: (digits ++ numeral.exponentText)) = _
      rw [scanFraction, if_pos rfl, takeWhile_digits hdigits hstop, dropWhile_digits hdigits hstop]
  | none =>
      cases htext : numeral.exponentText with
      | nil => rfl
      | cons c rest => exact if_neg (hexponent c (by rw [htext]; rfl)).2

/-- A numeral is matched to its end, and in its own parts. -/
theorem scanNumeral_text (h : numeral.WellFormed) : scanNumeral numeral.text = some (numeral, []) := by
  have hexponent : scanExponent numeral.exponentText = (numeral.exponent, []) := by
    rw [exponentText]
    cases hcase : numeral.exponent with
    | some exponent => exact scanExponent_text (h.exponent exponent hcase)
    | none => rfl
  rw [scanNumeral, scanSign_text h]
  dsimp only
  rw [takeWhile_digits h.whole (head_fractionText h), dropWhile_digits h.whole (head_fractionText h),
    scanFraction_text h]
  dsimp only
  rw [hexponent]
  exact if_pos h.nonempty

end Numeral

theorem scanFraction_eq (text : List Byte) :
    text = (scanFraction text).1.elim [] (0x2E :: ·) ++ (scanFraction text).2 ∧
      ((scanFraction text).1.getD []).all isDigit := by
  cases text with
  | nil => exact ⟨rfl, rfl⟩
  | cons c rest =>
      rw [scanFraction]
      split_ifs with hpoint
      · refine ⟨?_, all_takeWhile rest⟩
        rw [Option.elim_some, List.cons_append, List.takeWhile_append_dropWhile, hpoint]
      · exact ⟨rfl, rfl⟩

/-- What is matched is a numeral, at the start of the text. -/
theorem scanNumeral_eq {text rest : List Byte} {numeral : Numeral} (h : scanNumeral text = some (numeral, rest)) :
    numeral.WellFormed ∧ text = numeral.text ++ rest := by
  obtain ⟨htext, hsign⟩ := scanSign_eq [0x2D] text
  rw [scanNumeral] at h
  dsimp only at h
  set body := (scanSign [0x2D] text).2
  obtain ⟨hfraction, hdigits⟩ := scanFraction_eq (body.dropWhile isDigit)
  obtain ⟨hexponent, hwell⟩ := scanExponent_eq (scanFraction (body.dropWhile isDigit)).2
  split_ifs at h with hnonempty
  obtain ⟨rfl, rfl⟩ := Prod.mk.inj (Option.some.inj h)
  refine ⟨⟨?_, all_takeWhile body, hdigits, hnonempty, hwell⟩, ?_⟩
  · rcases hsign with hnone | ⟨c, hc, hs⟩
    · exact .inl hnone
    · rw [List.mem_singleton.1 hc] at hs
      exact .inr hs
  · calc text = (scanSign [0x2D] text).1 ++ body := htext
      _ = (scanSign [0x2D] text).1 ++ (body.takeWhile isDigit ++ body.dropWhile isDigit) := by
          rw [List.takeWhile_append_dropWhile]
      _ = _ := by
          rw [Numeral.text, Numeral.exponentText, Numeral.fractionText, List.append_assoc, List.append_assoc,
            List.append_assoc, ← hexponent, ← hfraction]

/-! ### Doubles -/

/-- A spelling of infinity or of what is not a number. -/
def IsSpecial (text : List Byte) : Prop :=
  ∃ sign body, (sign = [] ∨ sign = [(0x2D : Byte)]) ∧ text = sign ++ body ∧
    (body.map toLower = infText ∨ body.map toLower = infinityText ∨
      ∃ letters tail, body = letters ++ tail ∧ letters.map toLower = nanText ∧
        (tail = [] ∨ ∃ chars, chars.all isNanChar ∧ tail = [0x28] ++ chars ++ [0x29]))

theorem IsSpecial.exists_letter {text : List Byte} (h : IsSpecial text) :
    ∃ c ∈ text, toLower c = 0x69 ∨ toLower c = 0x6E := by
  obtain ⟨sign, body, -, rfl, hbody⟩ := h
  have hmem : ∃ c ∈ body, toLower c = 0x69 ∨ toLower c = 0x6E := by
    rcases hbody with hinf | hinfinity | ⟨letters, tail, rfl, hnan, -⟩
    · obtain ⟨c, hc, hlower⟩ := List.mem_map.1 (hinf ▸ (by decide : (0x69 : Byte) ∈ infText))
      exact ⟨c, hc, .inl hlower⟩
    · obtain ⟨c, hc, hlower⟩ := List.mem_map.1 (hinfinity ▸ (by decide : (0x69 : Byte) ∈ infinityText))
      exact ⟨c, hc, .inl hlower⟩
    · obtain ⟨c, hc, hlower⟩ := List.mem_map.1 (hnan ▸ (by decide : (0x6E : Byte) ∈ nanText))
      exact ⟨c, List.mem_append_left _ hc, .inr hlower⟩
  obtain ⟨c, hc, hletter⟩ := hmem
  exact ⟨c, List.mem_append_right _ hc, hletter⟩

theorem scanNanTail_eq_nil {tail : List Byte} (h : scanNanTail tail = []) :
    tail = [] ∨ ∃ chars, chars.all isNanChar ∧ tail = [0x28] ++ chars ++ [0x29] := by
  cases tail with
  | nil => exact .inl rfl
  | cons c rest =>
      rw [scanNanTail] at h
      split_ifs at h with hclosed
      obtain ⟨rfl, hhead⟩ := hclosed
      refine .inr ⟨rest.takeWhile isNanChar, List.all_eq_true.2 fun _ hmem => List.mem_takeWhile_imp hmem, ?_⟩
      have hrest : rest.dropWhile isNanChar = [0x29] := by
        obtain ⟨more, hmore⟩ := List.head?_eq_some_iff.1 hhead
        rw [hmore] at h ⊢
        rw [List.tail_cons] at h
        rw [h]
      rw [List.append_assoc, ← hrest, List.takeWhile_append_dropWhile]
      rfl

theorem isSpecial_of_scanSpecial {text : List Byte} {x : Binary64} (h : scanSpecial text = some (x, [])) :
    IsSpecial text := by
  obtain ⟨htext, hsign⟩ := scanSign_eq [0x2D] text
  have hsign' : (scanSign [0x2D] text).1 = [] ∨ (scanSign [0x2D] text).1 = [0x2D] := by
    rcases hsign with hnone | ⟨c, hc, hs⟩
    · exact .inl hnone
    · rw [List.mem_singleton.1 hc] at hs
      exact .inr hs
  refine ⟨_, _, hsign', htext, ?_⟩
  rw [scanSpecial] at h
  dsimp only at h
  set body := (scanSign [0x2D] text).2
  split_ifs at h with h1 h2 h3
  · have hrest := (Prod.mk.inj (Option.some.inj h)).2
    rw [List.take_of_length_le (List.drop_eq_nil_iff.1 hrest)] at h1
    exact .inr (.inl h1)
  · have hrest := (Prod.mk.inj (Option.some.inj h)).2
    rw [List.take_of_length_le (List.drop_eq_nil_iff.1 hrest)] at h2
    exact .inl h2
  · have hrest := (Prod.mk.inj (Option.some.inj h)).2
    exact .inr (.inr ⟨body.take 3, body.drop 3, (List.take_append_drop 3 body).symm, h3, scanNanTail_eq_nil hrest⟩)

/-- A numeral is no spelling of infinity or of what is not a number. -/
theorem scanSpecial_text {numeral : Numeral} (h : numeral.WellFormed) : scanSpecial numeral.text = none := by
  obtain ⟨c, rest, hbody, hc⟩ := Numeral.exists_body_eq_cons h
  have hlower : ∀ c : Byte, isDigit c ∨ c = 0x2E → toLower c ≠ 0x69 ∧ toLower c ≠ 0x6E := by decide +kernel
  obtain ⟨hi, hn⟩ := hlower c hc
  rw [scanSpecial, Numeral.scanSign_text h]
  dsimp only
  rw [hbody, if_neg, if_neg, if_neg]
  · exact fun heq => hn (List.cons.inj heq).1
  · exact fun heq => hi (List.cons.inj heq).1
  · exact fun heq => hi (List.cons.inj heq).1

/-- All of a text is taken for a double exactly if it is a numeral in range, unless it spells infinity or
what is not a number. -/
theorem double_ok_iff {text : List Byte} (hspecial : ¬IsSpecial text) {value number : Binary64} :
    double text value = ⟨.ok, [], number⟩ ↔
      ∃ numeral : Numeral, numeral.WellFormed ∧ text = numeral.text ∧ numeral.InRange ∧ number = numeral.toDouble := by
  constructor
  · intro h
    rw [double] at h
    cases hscan : scanSpecial text with
    | some special =>
        obtain ⟨x, rest⟩ := special
        rw [hscan] at h
        obtain ⟨-, rfl, -⟩ := Result.mk.inj h
        exact absurd (isSpecial_of_scanSpecial hscan) hspecial
    | none =>
        cases hnumeral : scanNumeral text with
        | none =>
            rw [hscan, hnumeral] at h
            cases h
        | some matched =>
            obtain ⟨numeral, rest⟩ := matched
            rw [hscan, hnumeral] at h
            dsimp only at h
            split_ifs at h with hrange
            · obtain ⟨-, rfl, rfl⟩ := Result.mk.inj h
              obtain ⟨hwell, htext⟩ := scanNumeral_eq hnumeral
              exact ⟨numeral, hwell, by rw [htext, List.append_nil], hrange, rfl⟩
            · cases h
  · rintro ⟨numeral, hwell, rfl, hrange, rfl⟩
    rw [double, scanSpecial_text hwell, Numeral.scanNumeral_text hwell]
    exact if_pos hrange

end FromChars
