import Synclaire.Proxy.HeaderRead

set_option relaxedAutoImplicit false
set_option autoImplicit false

/-!
# Header blocks

What a client sends before its payload: lines, each with its end, and a blank line. A line is a
*field* if it begins with a token and a colon; the rest is its value, with spaces and tabs around
it. The request line, and any other line, is not one. The authenticators find the blank line where
it is, and the lines before it.

## Main definitions

* `Synclaire.headerBytes` — the bytes of some lines and the blank line.
* `Synclaire.Token`, `Synclaire.Blanks`, `Synclaire.FieldValue`, `Synclaire.HeaderField` — a field.
* `Synclaire.HeaderLine`, `Synclaire.HeaderBlock` — lines, and blocks of at least one line.

## Main results

* `Synclaire.position_headerBytes`, `Synclaire.lines_headerBytes` — the blank line and the lines
  are found again.
* `Synclaire.authenticate_headerBytes` — the authenticators judge a header, however it is read.
* `Synclaire.HeaderBlock.exists_bytes_eq` — all lines without line breaks make up a block.
-/

namespace Synclaire

/-! ## Lines and the blank line -/

/-- The bytes of some lines, and a blank line after them. -/
def headerBytes (ls : List (List UInt8)) : List UInt8 := ls.flatMap (· ++ [13, 10]) ++ [13, 10]

/-- The header of some more lines. -/
theorem headerBytes_cons (l : List UInt8) (ls : List (List UInt8)) :
    headerBytes (l :: ls) = l ++ 13 :: 10 :: headerBytes ls := by
  simp [headerBytes]

/-- A header with a line ends with the four bytes of a blank line. -/
theorem four_le_length {ls : List (List UInt8)} (h : ls ≠ []) : 4 ≤ (headerBytes ls).length := by
  obtain ⟨l, ls, rfl⟩ := List.exists_cons_of_ne_nil h
  simp only [headerBytes_cons, List.length_append, List.length_cons]
  have hblank : 2 ≤ (headerBytes ls).length := by simp [headerBytes]
  omega

/-- The lines are found again, and the blank one after them. -/
theorem lines_headerBytes {ls : List (List UInt8)} (h : ∀ l ∈ ls, (10 : UInt8) ∉ l) :
    Scan.lines 10 13 (headerBytes ls) = ls ++ [[]] := by
  induction ls with
  | nil => rfl
  | cons l ls ih =>
    obtain ⟨hl, hls⟩ := List.forall_mem_cons.mp h
    have hmem : (10 : UInt8) ∉ l ++ [13] := by simp [hl]
    have hsplit : headerBytes (l :: ls) = (l ++ [13]) ++ 10 :: headerBytes ls := by
      rw [headerBytes_cons, List.append_assoc]
      rfl
    rw [hsplit, Scan.lines_append_cons hmem, ih hls, Scan.stripLast,
      if_pos List.getLast?_concat, List.dropLast_concat]
    rfl

/-- **The first blank line is the one after the lines**, whatever follows.

**Proof sketch.** Induction on the lines. The blank line begins with a carriage return, and the
one at the end of a line is followed by the first byte of the next line. -/
theorem position_headerBytes {ls : List (List UInt8)} (hls : ls ≠ [])
    (h : ∀ l ∈ ls, l ≠ [] ∧ (13 : UInt8) ∉ l) (payload : List UInt8) :
    Scan.position terminator (headerBytes ls ++ payload) = some ((headerBytes ls).length - 4) := by
  induction ls with
  | nil => exact absurd rfl hls
  | cons l ls ih =>
    obtain ⟨⟨-, hl⟩, hrest⟩ := List.forall_mem_cons.mp h
    rw [headerBytes_cons, List.append_assoc, terminator, Scan.position_append_of_not_mem hl,
      ← terminator, List.cons_append, List.cons_append]
    cases ls with
    | nil =>
      have hblank : headerBytes [] = [13, 10] := rfl
      rw [hblank, Scan.position_cons, if_pos ⟨payload, rfl⟩]
      simp
    | cons l' ls =>
      have hnext := ih (List.cons_ne_nil l' ls) hrest
      have hfour := four_le_length (List.cons_ne_nil l' ls)
      obtain ⟨⟨hne, hl'⟩, -⟩ := List.forall_mem_cons.mp hrest
      have hbegin : ¬terminator <+: 13 :: 10 :: (headerBytes (l' :: ls) ++ payload) := by
        obtain ⟨x, xs, rfl⟩ := List.exists_cons_of_ne_nil hne
        rw [headerBytes_cons]
        intro hpre
        simp only [terminator, List.cons_append, List.cons_prefix_cons, true_and] at hpre
        obtain ⟨rfl, -⟩ := hpre
        exact hl' List.mem_cons_self
      rw [Scan.position_cons, if_neg hbegin, terminator, Scan.position_cons_of_ne (by decide),
        ← terminator, hnext]
      simp only [Option.map_some, List.length_append, List.length_cons, Option.some.injEq]
      omega

/-- **The authenticators judge a header, however it is read**, and pass on what follows it.

**Proof sketch.** The header ends at its first blank line (`position_headerBytes`), and reading it
does not depend on the reads (`authenticate_segments`). -/
theorem authenticate_headerBytes (flavor : ProxyFlavor) (u p : Str) {ls : List (List UInt8)}
    (hls : ls ≠ []) (h : ∀ l ∈ ls, l ≠ [] ∧ (13 : UInt8) ∉ l) (payload : List UInt8)
    (hsize : (headerBytes ls).length ≤ 64 * 1024) {chunks : List Chunk}
    (hne : ∀ c ∈ chunks, c.bytes ≠ []) (hjoined : joined chunks = headerBytes ls ++ payload) :
    ∃ (data : List UInt8) (result : Except SynError (List UInt8)) (unread : List Chunk),
      authenticate flavor (.basic u p) (chunks.map .ok) =
        .returned data (some (headerBytes ls).length) result (unread.map .ok) ∧
      result.map (fun _ => ()) = headerVerdict flavor (.basic u p) (headerBytes ls) ∧
      ∀ trailing, result = .ok trailing → trailing ++ joined unread = payload := by
  have hfour := four_le_length hls
  have hfirst := (Scan.position_eq_some_iff terminator_ne_nil).mp
    (position_headerBytes hls h payload)
  obtain ⟨data, result, unread, hphase, hverdict, hpayload⟩ :=
    (authenticate_segments flavor u p).1 (headerBytes ls ++ payload) _ hfirst
      (by rw [Nat.sub_add_cancel hfour]; exact hsize) chunks hne hjoined
  rw [Nat.sub_add_cancel hfour] at hphase hverdict hpayload
  rw [List.take_left] at hverdict
  rw [List.drop_left] at hpayload
  exact ⟨data, result, unread, hphase, hverdict, hpayload⟩

/-! ## Fields -/

/-- A byte that may occur in a token: a letter, a digit or one of fifteen marks. -/
def isTchar (b : UInt8) : Bool :=
  (0x41 ≤ b && b ≤ 0x5A) || (0x61 ≤ b && b ≤ 0x7A) || (0x30 ≤ b && b ≤ 0x39) ||
    b ∈ [0x21, 0x23, 0x24, 0x25, 0x26, 0x27, 0x2A, 0x2B, 0x2D, 0x2E, 0x5E, 0x5F, 0x60, 0x7C, 0x7E]

/-- A space or a tab. -/
def isBlank (b : UInt8) : Bool := b = 0x20 || b = 0x09

/-- The name of a field. -/
structure Token where
  bytes : List UInt8
  nonempty : bytes ≠ []
  tchars : bytes.all isTchar = true
  deriving DecidableEq

/-- Optional spaces and tabs. -/
structure Blanks where
  bytes : List UInt8
  blank : bytes.all isBlank = true
  deriving DecidableEq

/-- The value of a field, without spaces and tabs at its ends. -/
structure FieldValue where
  bytes : List UInt8
  inLine : (13 : UInt8) ∉ bytes ∧ (10 : UInt8) ∉ bytes
  trimmed : bytes.head?.any isBlank = false ∧ bytes.getLast?.any isBlank = false
  deriving DecidableEq

/-- A field: a name, a colon, and a value with blanks around it. -/
structure HeaderField where
  name : Token
  before : Blanks
  value : FieldValue
  after : Blanks
  deriving DecidableEq

namespace HeaderField

/-- What stands after the colon. -/
def content (f : HeaderField) : List UInt8 := f.before.bytes ++ f.value.bytes ++ f.after.bytes

/-- The line. -/
def bytes (f : HeaderField) : List UInt8 := f.name.bytes ++ 58 :: f.content

end HeaderField

/-- The line begins with a token and a colon. -/
def IsFieldLine (bytes : List UInt8) : Prop :=
  58 ∈ bytes ∧ bytes.takeWhile (· ≠ 58) ≠ [] ∧ (bytes.takeWhile (· ≠ 58)).all isTchar = true

instance (bytes : List UInt8) : Decidable (IsFieldLine bytes) :=
  inferInstanceAs (Decidable (_ ∧ _ ∧ _))

/-- The line is not empty and has no line break. -/
def IsLine (bytes : List UInt8) : Prop := bytes ≠ [] ∧ (13 : UInt8) ∉ bytes ∧ (10 : UInt8) ∉ bytes

instance (bytes : List UInt8) : Decidable (IsLine bytes) :=
  inferInstanceAs (Decidable (_ ∧ _ ∧ _))

/-- A line of a header: a field, or something else, as the request line is. -/
inductive HeaderLine
  | plain (bytes : List UInt8) (isLine : IsLine bytes) (other : ¬IsFieldLine bytes)
  | field (f : HeaderField)
  deriving DecidableEq

/-- The bytes of a line. -/
def HeaderLine.bytes : HeaderLine → List UInt8
  | .plain bytes _ _ => bytes
  | .field f => f.bytes

/-- A header, which has a line. -/
structure HeaderBlock where
  lines : List HeaderLine
  nonempty : lines ≠ []
  deriving DecidableEq

/-- The bytes of a header. -/
def HeaderBlock.bytes (b : HeaderBlock) : List UInt8 := headerBytes (b.lines.map HeaderLine.bytes)

/-- A colon is no part of a token. -/
theorem Token.colon_notMem (t : Token) : (58 : UInt8) ∉ t.bytes := fun h =>
  absurd (List.all_eq_true.mp t.tchars 58 h) (by decide)

/-- What is no line break. -/
theorem isTchar_not_break {b : UInt8} (h : isTchar b = true ∨ isBlank b = true ∨ b = 58) :
    b ≠ 13 ∧ b ≠ 10 := by
  constructor <;> rintro rfl <;> exact absurd h (by decide)

/-- A field is a line. -/
theorem HeaderField.isLine (f : HeaderField) : IsLine f.bytes := by
  have hmem : ∀ b ∈ f.bytes, (isTchar b = true ∨ isBlank b = true ∨ b = 58) ∨
      b ∈ f.value.bytes := by
    intro b hb
    simp only [bytes, content, List.mem_append, List.mem_cons] at hb
    rcases hb with hname | rfl | (hbefore | hvalue) | hafter
    · exact .inl (.inl (List.all_eq_true.mp f.name.tchars b hname))
    · exact .inl (.inr (.inr rfl))
    · exact .inl (.inr (.inl (List.all_eq_true.mp f.before.blank b hbefore)))
    · exact .inr hvalue
    · exact .inl (.inr (.inl (List.all_eq_true.mp f.after.blank b hafter)))
  refine ⟨by simp [bytes], fun h => ?_, fun h => ?_⟩
  · rcases hmem 13 h with hother | hvalue
    · exact (isTchar_not_break hother).1 rfl
    · exact f.value.inLine.1 hvalue
  · rcases hmem 10 h with hother | hvalue
    · exact (isTchar_not_break hother).2 rfl
    · exact f.value.inLine.2 hvalue

/-- The lines of a header are lines. -/
theorem HeaderLine.isLine : (l : HeaderLine) → IsLine l.bytes
  | .plain _ isLine _ => isLine
  | .field f => f.isLine

/-- What stands before the first colon. -/
theorem takeWhile_append_colon {name : List UInt8} (h : 58 ∉ name) (content : List UInt8) :
    (name ++ 58 :: content).takeWhile (· ≠ 58) = name := by
  have hname : ∀ b ∈ name, decide (b ≠ 58) = true := fun b hb =>
    decide_eq_true fun heq => h (heq ▸ hb)
  rw [List.takeWhile_append_of_pos hname, List.takeWhile_cons_of_neg (by decide), List.append_nil]

/-! ## All lines -/

/-- Text without line breaks is a value with blanks around it. -/
theorem exists_content {content : List UInt8}
    (hbreak : (13 : UInt8) ∉ content ∧ (10 : UInt8) ∉ content) :
    ∃ (before : Blanks) (value : FieldValue) (after : Blanks),
      before.bytes ++ value.bytes ++ after.bytes = content := by
  let rest := content.dropWhile isBlank
  have hfront : rest.rdropWhile isBlank <+: rest := List.rdropWhile_prefix isBlank rest
  have hmem : ∀ b ∈ rest.rdropWhile isBlank, b ∈ content := fun b hb =>
    (List.dropWhile_sublist isBlank).mem (hfront.sublist.mem hb)
  refine ⟨⟨content.takeWhile isBlank,
      List.all_eq_true.mpr fun b hb => List.mem_takeWhile_imp hb⟩,
    ⟨rest.rdropWhile isBlank, ⟨fun h => hbreak.1 (hmem 13 h), fun h => hbreak.2 (hmem 10 h)⟩,
      ?_, ?_⟩,
    ⟨rest.rtakeWhile isBlank, List.all_eq_true.mpr fun b hb => List.mem_rtakeWhile_imp hb⟩, ?_⟩
  · cases hhead : (rest.rdropWhile isBlank).head? with
    | none => rfl
    | some b =>
      -- the first byte of the value is the first that is no blank
      have hrest : rest.head? = some b := by
        obtain ⟨more, hmore⟩ := hfront
        rw [← hmore, List.head?_append, hhead]
        rfl
      have hnot := List.head?_dropWhile_not isBlank content
      rw [hrest] at hnot
      exact hnot
  · cases hlast : (rest.rdropWhile isBlank).getLast? with
    | none => rfl
    | some b =>
      obtain ⟨hne, heq⟩ := List.mem_getLast?_eq_getLast hlast
      have hnot := List.rdropWhile_last_not isBlank rest hne
      rw [← heq] at hnot
      exact Bool.eq_false_iff.mpr hnot
  · dsimp only
    rw [List.append_assoc, List.rdropWhile_append_rtakeWhile, List.takeWhile_append_dropWhile]

/-- Every line is a line of a header. -/
theorem HeaderLine.exists_bytes_eq {bytes : List UInt8} (h : IsLine bytes) :
    ∃ l : HeaderLine, l.bytes = bytes := by
  by_cases hfield : IsFieldLine bytes
  · obtain ⟨hcolon, hne, htoken⟩ := hfield
    obtain ⟨name, content, rfl, hname⟩ := List.eq_append_cons_of_mem hcolon
    rw [takeWhile_append_colon hname] at hne htoken
    have hbreak : (13 : UInt8) ∉ content ∧ (10 : UInt8) ∉ content :=
      ⟨fun hb => h.2.1 (by simp [hb]), fun hb => h.2.2 (by simp [hb])⟩
    obtain ⟨before, value, after, hcontent⟩ := exists_content hbreak
    refine ⟨.field ⟨⟨name, hne, htoken⟩, before, value, after⟩, ?_⟩
    rw [← hcontent]
    rfl
  · exact ⟨.plain bytes h hfield, rfl⟩

/-- **All lines without line breaks make up a header.** -/
theorem HeaderBlock.exists_bytes_eq {ls : List (List UInt8)} (hls : ls ≠ [])
    (h : ∀ l ∈ ls, IsLine l) : ∃ b : HeaderBlock, b.bytes = headerBytes ls := by
  have hlines : ∃ lines : List HeaderLine, lines.map HeaderLine.bytes = ls := by
    clear hls
    induction ls with
    | nil => exact ⟨[], rfl⟩
    | cons l ls ih =>
      obtain ⟨hl, hrest⟩ := List.forall_mem_cons.mp h
      obtain ⟨line, hline⟩ := HeaderLine.exists_bytes_eq hl
      obtain ⟨lines, hlines⟩ := ih hrest
      exact ⟨line :: lines, by rw [List.map_cons, hline, hlines]⟩
  obtain ⟨lines, rfl⟩ := hlines
  exact ⟨⟨lines, fun h => hls (by rw [h, List.map_nil])⟩, rfl⟩

end Synclaire
