import Mathlib.Data.List.Infix
import RobotEmu.BigEndian

/-! Readers that walk over a byte string with a cursor. Nothing stops a cursor at the end of the string:
a reader is `none` where the remaining length would be a negative difference, or an access would leave
the string. `Codes` relates a reader to the writer it undoes; it is kept by sequencing, so a parser is
correct, total and in bounds when its parts are. -/

/-- A reader: the value read from an offset on and the offset after it, or an error. -/
structure Cursor (ε α : Type) where
  run : List Byte → Nat → Option (Except ε (α × Nat))

namespace Cursor

variable {ε α β : Type}

instance : Monad (Cursor ε) where
  pure a := ⟨fun _ offset => some (.ok (a, offset))⟩
  bind x f := ⟨fun bytes offset =>
    match x.run bytes offset with
    | none => none
    | some (.error e) => some (.error e)
    | some (.ok (a, offset')) => (f a).run bytes offset'⟩

/-- The check that stands before a read. -/
def needBytes (e : ε) (n : Nat) : Cursor ε Unit where
  run bytes offset :=
    if offset ≤ bytes.length then
      if bytes.length - offset < n then some (.error e) else some (.ok ((), offset))
    else none

/-- The `n` bytes at a distance from the cursor. -/
def peek (distance n : Nat) : Cursor ε (List Byte) where
  run bytes offset := (Span.subspan bytes (offset + distance) n).map fun part => .ok (part, offset)

def advance (n : Nat) : Cursor ε Unit where
  run _ offset := some (.ok ((), offset + n))

/-- A read of bytes already taken out of the string. -/
def lift (value : Option α) : Cursor ε α where
  run _ offset := value.map fun a => .ok (a, offset)

def repeated (x : Cursor ε α) : Nat → Cursor ε (List α)
  | 0 => pure []
  | n + 1 => do
      let a ← x
      let later ← repeated x n
      return a :: later

theorem run_bind (x : Cursor ε α) (f : α → Cursor ε β) (bytes : List Byte) (offset : Nat) :
    (x >>= f).run bytes offset =
      match x.run bytes offset with
      | none => none
      | some (.error e) => some (.error e)
      | some (.ok (a, offset')) => (f a).run bytes offset' := rfl

theorem run_bind_of_ok {x : Cursor ε α} {bytes : List Byte} {offset offset' : Nat} {a : α}
    (h : x.run bytes offset = some (.ok (a, offset'))) (f : α → Cursor ε β) :
    (x >>= f).run bytes offset = (f a).run bytes offset' := by
  rw [run_bind, h]

theorem run_bind_of_error {x : Cursor ε α} {bytes : List Byte} {offset : Nat} {e : ε}
    (h : x.run bytes offset = some (.error e)) (f : α → Cursor ε β) :
    (x >>= f).run bytes offset = some (.error e) := by
  rw [run_bind, h]

theorem run_needBytes (e : ε) (n : Nat) (bytes : List Byte) (offset : Nat) :
    (needBytes e n).run bytes offset =
      if offset ≤ bytes.length then
        if bytes.length - offset < n then some (.error e) else some (.ok ((), offset))
      else none := rfl

theorem run_needBytes_of_le {e : ε} {n : Nat} {bytes : List Byte} {offset : Nat}
    (h : offset + n ≤ bytes.length) : (needBytes e n).run bytes offset = some (.ok ((), offset)) := by
  rw [run_needBytes, if_pos (by omega), if_neg (by omega)]

theorem run_needBytes_of_gt {e : ε} {n : Nat} {bytes : List Byte} {offset : Nat}
    (hoffset : offset ≤ bytes.length) (h : bytes.length < offset + n) :
    (needBytes e n).run bytes offset = some (.error e) := by
  rw [run_needBytes, if_pos hoffset, if_pos (by omega)]

/-- A reader behind a check fails where the check does. -/
theorem run_checked_of_gt {e : ε} {n : Nat} {bytes : List Byte} {offset : Nat}
    (hoffset : offset ≤ bytes.length) (h : bytes.length < offset + n) (x : Cursor ε α) :
    (do needBytes e n; x).run bytes offset = some (.error e) :=
  run_bind_of_error (run_needBytes_of_gt hoffset h) _

theorem run_peek_of_le {distance n : Nat} {bytes : List Byte} {offset : Nat}
    (h : offset + distance + n ≤ bytes.length) :
    (peek distance n : Cursor ε (List Byte)).run bytes offset
      = some (.ok ((bytes.drop (offset + distance)).take n, offset)) := by
  change (Span.subspan bytes (offset + distance) n).map _ = _
  rw [Span.subspan_eq_some h, Option.map_some]

theorem run_lift_some (a : α) (bytes : List Byte) (offset : Nat) :
    (lift (some a) : Cursor ε α).run bytes offset = some (.ok (a, offset)) := rfl

/-! ### Readers that undo a writer -/

/-- From any offset within the string the reader finds the one fitting value written there and stops
after it, or fails with `e` because none is. -/
structure Codes (e : ε) (x : Cursor ε α) (write : α → List Byte) (fits : α → Prop) : Prop where
  unique : ∀ {a b text}, fits a → fits b → write a <+: text → write b <+: text → a = b
  reads : ∀ {bytes offset}, offset ≤ bytes.length →
    (∃ a, fits a ∧ write a <+: bytes.drop offset ∧
      x.run bytes offset = some (.ok (a, offset + (write a).length))) ∨
    (∀ a, fits a → ¬write a <+: bytes.drop offset) ∧ x.run bytes offset = some (.error e)

namespace Codes

variable {e : ε} {x : Cursor ε α} {write : α → List Byte} {fits : α → Prop}

/-- A written value is read, and the cursor stands after it. -/
theorem read_of_written (hx : Codes e x write fits) {bytes : List Byte} {offset : Nat} {a : α}
    (hoffset : offset ≤ bytes.length) (hfits : fits a) (ha : write a <+: bytes.drop offset) :
    x.run bytes offset = some (.ok (a, offset + (write a).length)) := by
  obtain ⟨b, hb, hwritten, hread⟩ | ⟨hnone, -⟩ := hx.reads hoffset
  · obtain rfl := hx.unique hfits hb ha hwritten
    exact hread
  · exact absurd ha (hnone a hfits)

/-- Where a written value is cut off, the reader fails. -/
theorem read_of_cut (hx : Codes e x write fits) {bytes : List Byte} {offset : Nat} {a : α}
    (hoffset : offset ≤ bytes.length) (hfits : fits a) (hcut : bytes.drop offset <+: write a)
    (hne : bytes.drop offset ≠ write a) : x.run bytes offset = some (.error e) := by
  obtain ⟨b, hb, hwritten, -⟩ | ⟨-, herror⟩ := hx.reads hoffset
  · obtain rfl := hx.unique hfits hb List.prefix_rfl (hwritten.trans hcut)
    exact absurd (hcut.eq_of_length_le hwritten.length_le) hne
  · exact herror

/-- What is read is a fitting value that was written there. -/
theorem written_of_read (hx : Codes e x write fits) {bytes : List Byte} {offset next : Nat} {a : α}
    (hoffset : offset ≤ bytes.length) (h : x.run bytes offset = some (.ok (a, next))) :
    fits a ∧ write a <+: bytes.drop offset ∧ next = offset + (write a).length := by
  obtain ⟨b, hb, hwritten, hread⟩ | ⟨-, herror⟩ := hx.reads hoffset
  · rw [h] at hread
    obtain ⟨rfl, hnext⟩ := Prod.mk.inj (Except.ok.inj (Option.some.inj hread))
    exact ⟨hb, hwritten, hnext⟩
  · rw [h] at herror
    cases herror

/-- The reader stays in bounds, whatever the string. -/
theorem isSome (hx : Codes e x write fits) {bytes : List Byte} {offset : Nat}
    (hoffset : offset ≤ bytes.length) : (x.run bytes offset).isSome := by
  obtain ⟨a, -, -, hread⟩ | ⟨-, herror⟩ := hx.reads hoffset
  · rw [hread]
    rfl
  · rw [herror]
    rfl

theorem congr (hx : Codes e x write fits) {write' : α → List Byte} {fits' : α → Prop}
    (hfits : ∀ a, fits' a ↔ fits a) (hwrite : ∀ a, fits a → write' a = write a) :
    Codes e x write' fits' := by
  constructor
  · intro a b text ha hb hwa hwb
    rw [hfits] at ha hb
    rw [hwrite a ha] at hwa
    rw [hwrite b hb] at hwb
    exact hx.unique ha hb hwa hwb
  · intro bytes offset hoffset
    obtain ⟨a, ha, hwritten, hread⟩ | ⟨hnone, herror⟩ := hx.reads hoffset
    · refine .inl ⟨a, (hfits a).2 ha, ?_, ?_⟩
      · rwa [hwrite a ha]
      · rwa [hwrite a ha]
    · refine .inr ⟨fun a ha => ?_, herror⟩
      rw [hfits] at ha
      rw [hwrite a ha]
      exact hnone a ha

theorem pure (e : ε) (a : α) : Codes e (Pure.pure a) (fun _ => []) (· = a) := by
  constructor
  · intro b c _ hb hc _ _
    rw [hb, hc]
  · intro bytes offset _
    exact .inl ⟨a, rfl, List.nil_prefix, rfl⟩

/-- Sequencing. A value of the whole determines the part written first, and `fitsAt` tells which wholes
go with a part. -/
theorem bind (hx : Codes e x write fits) {f : α → Cursor ε β} {fitsAt : α → β → Prop}
    {rest : α → β → List Byte} {whole : β → List Byte} {fits' : β → Prop}
    (hf : ∀ a, fits a → Codes e (f a) (rest a) (fitsAt a))
    (hfits : ∀ b, fits' b ↔ ∃ a, fits a ∧ fitsAt a b)
    (hwhole : ∀ a b, fits a → fitsAt a b → whole b = write a ++ rest a b) :
    Codes e (x >>= f) whole fits' := by
  have hsplit : ∀ {a b text}, fits a → fitsAt a b → whole b <+: text →
      write a <+: text ∧ rest a b <+: text.drop (write a).length := by
    intro a b text ha hb h
    obtain ⟨tail, rfl⟩ := h
    rw [hwhole a b ha hb, List.append_assoc, List.drop_left]
    exact ⟨List.prefix_append _ _, List.prefix_append _ _⟩
  constructor
  · intro b c text hb hc hwb hwc
    obtain ⟨a, ha, hab⟩ := (hfits b).1 hb
    obtain ⟨a', ha', hac⟩ := (hfits c).1 hc
    obtain ⟨hfirst, hlater⟩ := hsplit ha hab hwb
    obtain ⟨hfirst', hlater'⟩ := hsplit ha' hac hwc
    obtain rfl := hx.unique ha ha' hfirst hfirst'
    exact (hf a ha).unique hab hac hlater hlater'
  · intro bytes offset hoffset
    obtain ⟨a, ha, hwritten, hread⟩ | ⟨hnone, herror⟩ := hx.reads hoffset
    · have hnext : offset + (write a).length ≤ bytes.length := by
        have hlength := hwritten.length_le
        rw [List.length_drop] at hlength
        omega
      rw [run_bind_of_ok hread]
      obtain ⟨b, hb, hlater, hresult⟩ | ⟨hnone, herror⟩ := (hf a ha).reads hnext
      · refine .inl ⟨b, (hfits b).2 ⟨a, ha, hb⟩, ?_, ?_⟩
        · obtain ⟨tail, htail⟩ := hwritten
          rw [← List.drop_drop, ← htail, List.drop_left] at hlater
          rw [← htail, hwhole a b ha hb]
          exact (List.prefix_append_right_inj _).2 hlater
        · rw [hresult, hwhole a b ha hb, List.length_append, Nat.add_assoc]
      · refine .inr ⟨fun b hb hwb => ?_, herror⟩
        obtain ⟨a', ha', hab⟩ := (hfits b).1 hb
        obtain ⟨hfirst, hsecond⟩ := hsplit ha' hab hwb
        obtain rfl := hx.unique ha' ha hfirst hwritten
        rw [List.drop_drop] at hsecond
        exact hnone b hab hsecond
    · refine .inr ⟨fun b hb hwb => ?_, run_bind_of_error herror f⟩
      obtain ⟨a, ha, hab⟩ := (hfits b).1 hb
      exact hnone a ha (hsplit ha hab hwb).1

/-- A reader of `n` bytes behind its check. -/
theorem checked {n : Nat} (hlength : ∀ a, fits a → (write a).length = n)
    (hinj : ∀ a b, fits a → fits b → write a = write b → a = b)
    (hread : ∀ bytes offset, offset + n ≤ bytes.length →
      ∃ a, fits a ∧ write a = (bytes.drop offset).take n ∧ x.run bytes offset = some (.ok (a, offset + n))) :
    Codes e (do needBytes e n; x) write fits := by
  constructor
  · intro a b text ha hb hwa hwb
    apply hinj a b ha hb
    rw [List.prefix_iff_eq_take.1 hwa, List.prefix_iff_eq_take.1 hwb, hlength a ha, hlength b hb]
  · intro bytes offset hoffset
    by_cases hroom : offset + n ≤ bytes.length
    · obtain ⟨a, ha, hwritten, hresult⟩ := hread bytes offset hroom
      refine .inl ⟨a, ha, ?_, ?_⟩
      · rw [hwritten]
        exact List.take_prefix _ _
      · rw [run_bind_of_ok (run_needBytes_of_le hroom), hresult, hlength a ha]
    · refine .inr ⟨fun a ha hwa => ?_, ?_⟩
      · have hshort := hwa.length_le
        rw [List.length_drop, hlength a ha] at hshort
        omega
      · exact run_checked_of_gt hoffset (by omega) x

theorem repeated (hx : Codes e x write fits) (n : Nat) :
    Codes e (Cursor.repeated x n) (·.flatMap write) fun as => as.length = n ∧ ∀ a ∈ as, fits a := by
  induction n with
  | zero =>
      refine (Codes.pure e []).congr (fun as => ?_) (fun as has => ?_)
      · rw [List.length_eq_zero_iff]
        exact ⟨And.left, fun h => ⟨h, by simp [h]⟩⟩
      · rw [has, List.flatMap_nil]
  | succ n ih =>
      have hlater : ∀ a, fits a → Codes e (do let later ← Cursor.repeated x n; return a :: later)
          (fun as => as.tail.flatMap write)
          fun as => ∃ later, (later.length = n ∧ ∀ b ∈ later, fits b) ∧ as = a :: later := by
        intro a _
        refine ih.bind (fun later _ => Codes.pure e (a :: later)) (fun as => Iff.rfl)
          (fun later as _ has => ?_)
        rw [has, List.tail_cons, List.append_nil]
      refine hx.bind hlater (fun as => ?_) (fun a as _ has => ?_)
      · cases as with
        | nil => simp
        | cons a later => simp [and_assoc, and_comm, and_left_comm]
      · obtain ⟨later, -, rfl⟩ := has
        rw [List.flatMap_cons, List.tail_cons]

end Codes

end Cursor
