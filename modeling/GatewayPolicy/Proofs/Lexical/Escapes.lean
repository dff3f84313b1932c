import GatewayPolicy.Authoring.Literal
import Mathlib.Data.List.Forall2
import Mathlib.Tactic.IntervalCases

/-! # Escapes in literals

  The body of a literal is a sequence of pieces: characters that stand for themselves, and
  escapes, which begin with a backslash. An escape that begins with a backslash and a `u`
  takes the four characters behind them, or fewer at the end of the body, and stands for
  the character that these name in hexadecimal.

  - `Names` says which character some hexadecimal digits name.
  - `BodyPiece` is a piece and `CutsBody` cuts a body into pieces, in one way only.
  - `decodeEscapes_pieces` says what a body stands for, piece by piece. Of the characters
    that a `u` takes, a plus sign in front is left out, and any number of digits will do.
-/

namespace GatewayPolicy

/-! ## Hexadecimal digits -/

/-- A hexadecimal digit, in lower or upper case, and its value. -/
def HexDigit (c : Char) (d : Nat) : Prop :=
  "0123456789abcdef".toList[d]? = some c ∨ "0123456789ABCDEF".toList[d]? = some c

/-- The value of digits, each of which counts sixteen times as much as the next. -/
def hexNumber (ds : List Nat) : Nat := ds.foldl (fun value d => 16 * value + d) 0

/-- Hexadecimal digits, one or more, that name a character by its number. -/
def Names (digits : List Char) (c : Char) : Prop :=
  ∃ ds, ds ≠ [] ∧ List.Forall₂ HexDigit digits ds ∧ c.toNat = hexNumber ds

instance (c : Char) (d : Nat) : Decidable (HexDigit c d) := inferInstanceAs (Decidable (_ ∨ _))

/-- Digits lie in three ranges, and a character is known by its number. -/
theorem hexDigit_of_hexDigit? {c : Char} {d : Nat} (h : hexDigit? c = some d) : HexDigit c d := by
  have hrange : 48 ≤ c.toNat ∧ c.toNat ≤ 57 ∨ 97 ≤ c.toNat ∧ c.toNat ≤ 102 ∨
      65 ≤ c.toNat ∧ c.toNat ≤ 70 := by
    unfold hexDigit? at h
    split at h
    · rename_i hdigit
      simp only [Char.isDigit, ge_iff_le, Bool.and_eq_true, decide_eq_true_eq,
        UInt32.le_iff_toNat_le] at hdigit
      exact .inl hdigit
    · split at h
      · rename_i hlower
        simp only [Bool.and_eq_true, decide_eq_true_eq, Char.le_def,
          UInt32.le_iff_toNat_le] at hlower
        exact .inr (.inl hlower)
      · split at h
        · rename_i hupper
          simp only [Bool.and_eq_true, decide_eq_true_eq, Char.le_def,
            UInt32.le_iff_toNat_le] at hupper
          exact .inr (.inr hupper)
        · cases h
  rw [← Char.ofNat_toNat c] at h ⊢
  generalize c.toNat = n at h hrange
  rcases hrange with ⟨hlow, hhigh⟩ | ⟨hlow, hhigh⟩ | ⟨hlow, hhigh⟩ <;>
    · interval_cases n <;> cases h <;> decide

theorem hexDigit?_eq_some {c : Char} {d : Nat} : hexDigit? c = some d ↔ HexDigit c d := by
  refine ⟨hexDigit_of_hexDigit?, ?_⟩
  intro h
  have hd : d < 16 := by
    rcases h with h | h <;> exact (List.getElem?_eq_some_iff.mp h).1
  rcases h with h | h <;>
    · interval_cases d <;> cases h <;> decide

theorem hexValue?_eq_some {v n : Nat} {cs : List Char} :
    hexValue? v cs = some n ↔
      ∃ ds, List.Forall₂ HexDigit cs ds ∧ n = ds.foldl (fun value d => 16 * value + d) v := by
  induction cs generalizing v with
  | nil =>
    rw [hexValue?]
    constructor
    · intro h
      exact ⟨[], .nil, (Option.some.inj h).symm⟩
    · rintro ⟨ds, hds, rfl⟩
      cases hds
      rfl
  | cons c cs ih =>
    rw [hexValue?]
    constructor
    · intro h
      split at h
      · rename_i d hd
        obtain ⟨ds, hds, hn⟩ := ih.mp h
        exact ⟨d :: ds, .cons (hexDigit?_eq_some.mp hd) hds, hn⟩
      · cases h
    · rintro ⟨ds, hds, hn⟩
      cases hds with
      | cons hd hds =>
        rw [hexDigit?_eq_some.mpr hd]
        exact ih.mpr ⟨_, hds, hn⟩

theorem ofNat_eq_iff {n : Nat} {c : Char} :
    (if n.isValidChar then some (Char.ofNat n) else none) = some c ↔ c.toNat = n := by
  constructor
  · intro h
    split at h
    · rename_i hvalid
      cases h
      rw [Char.ofNat, dif_pos hvalid]
      rfl
    · cases h
  · rintro rfl
    have hvalid : c.toNat.isValidChar := c.valid
    rw [if_pos hvalid, Char.ofNat_toNat]

/-- What stands behind a plus sign, if there is one. -/
def unsigned (cs : List Char) : List Char := if cs.head? = some '+' then cs.drop 1 else cs

/-- A character is read where digits name it, behind a plus sign or without one. -/
theorem scalar?_eq_some {cs : List Char} {c : Char} :
    scalar? cs = some c ↔ Names (unsigned cs) c := by
  unfold scalar?
  extract_lets digits
  show _ ↔ Names digits c
  by_cases hempty : digits.isEmpty = true
  · rw [if_pos hempty, List.isEmpty_iff.mp hempty]
    refine iff_of_false nofun ?_
    rintro ⟨ds, hne, hds, -⟩
    cases hds
    exact hne rfl
  · rw [if_neg hempty]
    constructor
    · intro h
      split at h
      · rename_i n hn
        obtain ⟨ds, hds, rfl⟩ := hexValue?_eq_some.mp hn
        refine ⟨ds, ?_, hds, ofNat_eq_iff.mp h⟩
        rintro rfl
        exact hempty (List.isEmpty_iff.mpr (List.forall₂_nil_right_iff.mp hds))
      · cases h
    · rintro ⟨ds, -, hds, hc⟩
      rw [hexValue?_eq_some.mpr ⟨ds, hds, rfl⟩]
      exact ofNat_eq_iff.mpr hc

/-! ## Pieces of a body -/

/-- A piece of the body of a literal. -/
inductive BodyPiece where
  | plain (c : Char)
  /-- A backslash at the end of the body. -/
  | lone
  /-- A backslash and another character than `u`. -/
  | simple (c : Char)
  /-- A backslash, a `u` and the characters that it takes. -/
  | unicode (taken : List Char)
  deriving DecidableEq, Repr

namespace BodyPiece

/-- The characters that a piece is written with. -/
def chars : BodyPiece → List Char
  | plain c => [c]
  | lone => ['\\']
  | simple c => ['\\', c]
  | unicode taken => '\\' :: 'u' :: taken

/-- A piece can stand in front of the rest of a body. -/
inductive Fits : BodyPiece → List Char → Prop where
  | plain {c : Char} {rest : List Char} (other : c ≠ '\\') : Fits (.plain c) rest
  | lone : Fits .lone []
  | simple {c : Char} {rest : List Char} (other : c ≠ 'u') : Fits (.simple c) rest
  | four {taken rest : List Char} (length : taken.length = 4) : Fits (.unicode taken) rest
  | fewer {taken : List Char} (length : taken.length < 4) : Fits (.unicode taken) []

/-- The characters that a piece stands for. -/
def meaning : BodyPiece → List Char
  | plain c => [c]
  | lone => ['\\']
  | simple c => [simpleEscape c]
  | unicode taken => unicodeEscape taken

/-- The piece that stands in front of a body. -/
def first? : List Char → Option BodyPiece
  | [] => none
  | '\\' :: [] => some lone
  | '\\' :: 'u' :: cs => some (unicode (cs.take 4))
  | '\\' :: c :: _ => some (simple c)
  | c :: _ => some (plain c)

theorem Fits.first?_eq {p : BodyPiece} {rest : List Char} (h : p.Fits rest) :
    first? (p.chars ++ rest) = some p := by
  cases h with
  | plain other => simp [chars, first?, other]
  | lone => rfl
  | simple other => simp [chars, first?]
  | four length => simp [chars, first?, ← length]
  | fewer length => simp [chars, first?, List.take_of_length_le (Nat.le_of_lt length)]

end BodyPiece

/-- A body is cut into pieces, each of which can stand where it does. -/
inductive CutsBody : List Char → List BodyPiece → Prop where
  | nil : CutsBody [] []
  | cons {p : BodyPiece} {ps : List BodyPiece} {rest : List Char} (fits : p.Fits rest)
      (cuts : CutsBody rest ps) : CutsBody (p.chars ++ rest) (p :: ps)

theorem CutsBody.unique {body : List Char} {ps qs : List BodyPiece} (h : CutsBody body ps)
    (h' : CutsBody body qs) : ps = qs := by
  induction h generalizing qs with
  | nil =>
    generalize hbody : ([] : List Char) = body at h'
    cases h' with
    | nil => rfl
    | @cons p =>
      cases p <;> cases hbody
  | @cons p ps rest fits cuts ih =>
    generalize hbody : p.chars ++ rest = body at h'
    cases h' with
    | nil => cases p <;> cases hbody
    | cons fits' cuts' =>
      have hsame := fits.first?_eq
      rw [hbody, fits'.first?_eq] at hsame
      cases hsame
      rw [ih (List.append_cancel_left hbody ▸ cuts')]

/-- Every body can be cut, and it stands for what its pieces stand for. -/
theorem exists_cutsBody (body : List Char) :
    ∃ ps, CutsBody body ps ∧ decodeEscapes body = ps.flatMap BodyPiece.meaning := by
  fun_induction decodeEscapes body with
  | case1 => exact ⟨[], .nil, rfl⟩
  | case2 => exact ⟨[.lone], .cons .lone .nil, rfl⟩
  | case3 a b c d cs ih =>
    obtain ⟨ps, hcuts, hdecode⟩ := ih
    have hfits : (BodyPiece.unicode [a, b, c, d]).Fits cs := .four rfl
    refine ⟨_, .cons hfits hcuts, ?_⟩
    rw [List.flatMap_cons, hdecode]
    rfl
  | case4 cs hshort =>
    have hlength : cs.length < 4 := by
      rcases cs with _ | ⟨a, _ | ⟨b, _ | ⟨c, _ | ⟨d, cs⟩⟩⟩⟩
      · decide
      · simp
      · simp
      · simp
      · exact absurd rfl (hshort a b c d cs)
    refine ⟨[.unicode cs], ?_, (List.append_nil _).symm⟩
    have hcuts := CutsBody.cons (.fewer hlength) .nil
    rwa [List.append_nil] at hcuts
  | case5 c cs _ hother ih =>
    obtain ⟨ps, hcuts, hdecode⟩ := ih
    have hfits : (BodyPiece.simple c).Fits cs := .simple hother
    refine ⟨_, .cons hfits hcuts, ?_⟩
    rw [List.flatMap_cons, hdecode]
    rfl
  | case6 c cs hlone _ _ hescape ih =>
    obtain ⟨ps, hcuts, hdecode⟩ := ih
    have hfits : (BodyPiece.plain c).Fits cs := by
      refine .plain fun hc => ?_
      cases cs with
      | nil => exact hlone hc rfl
      | cons c' cs => exact hescape c' cs hc rfl
    refine ⟨_, .cons hfits hcuts, ?_⟩
    rw [List.flatMap_cons, hdecode]
    rfl

/-! ## Escapes by number -/

/-- Four hexadecimal digits that name a character. -/
def Complete (taken : List Char) (c : Char) : Prop := taken.length = 4 ∧ Names taken c

/-- Digits have no sign in front. -/
theorem Names.unsigned_eq {taken : List Char} {c : Char} (h : Names taken c) :
    taken.head? ≠ some '+' ∧ unsigned taken = taken := by
  obtain ⟨ds, -, hds, -⟩ := h
  have hsign : taken.head? ≠ some '+' := by
    cases hds with
    | nil => exact nofun
    | cons hd _ =>
      intro hplus
      cases hplus
      have hnone := hexDigit?_eq_some.mpr hd
      cases hnone
  exact ⟨hsign, if_neg hsign⟩

theorem unicodeEscape_eq_singleton {taken : List Char} {c : Char} :
    unicodeEscape taken = [c] ↔ Names (unsigned taken) c := by
  rw [← scalar?_eq_some]
  unfold unicodeEscape
  cases scalar? taken with
  | none => exact iff_of_false (by simp) (by simp)
  | some c' => simp

theorem unicodeEscape_eq_copy {taken : List Char} (h : ¬ ∃ c, Names (unsigned taken) c) :
    unicodeEscape taken = '\\' :: 'u' :: taken := by
  unfold unicodeEscape
  cases hscalar : scalar? taken with
  | none => rfl
  | some c => exact absurd ⟨c, scalar?_eq_some.mp hscalar⟩ h

/-- Only four characters without a sign are sure to be read as four digits are. -/
theorem complete_iff_unsigned {taken : List Char} :
    (∀ c, unicodeEscape taken = [c] ↔ Complete taken c) ↔
      taken.length = 4 ∧ taken.head? ≠ some '+' ∨ ¬ ∃ c, Names (unsigned taken) c := by
  constructor
  · intro hrule
    by_cases hnames : ∃ c, Names (unsigned taken) c
    · obtain ⟨c, hc⟩ := hnames
      obtain ⟨hlength, hdigits⟩ := (hrule c).mp (unicodeEscape_eq_singleton.mpr hc)
      exact .inl ⟨hlength, hdigits.unsigned_eq.1⟩
    · exact .inr hnames
  · rintro (⟨hlength, hsign⟩ | hnone) c
    · rw [unicodeEscape_eq_singleton, unsigned, if_neg hsign]
      exact ⟨fun h => ⟨hlength, h⟩, fun h => h.2⟩
    · rw [unicodeEscape_eq_singleton]
      refine iff_of_false (fun h => hnone ⟨c, h⟩) ?_
      rintro ⟨-, hdigits⟩
      exact hnone ⟨c, hdigits.unsigned_eq.2.symm ▸ hdigits⟩

/-- A body stands for what its pieces stand for, one after the other. A `u` with what it takes
    is replaced by the character that digits behind an optional plus sign name, and it is
    copied if they name none. Hence exactly four digits are asked for unless fewer digits
    stand at the end of the body, or digits behind a plus sign. -/
theorem decodeEscapes_pieces (body : List Char) :
    ∃ ps, CutsBody body ps ∧ (∀ qs, CutsBody body qs → qs = ps) ∧
      decodeEscapes body = ps.flatMap BodyPiece.meaning ∧
      ∀ taken, BodyPiece.unicode taken ∈ ps →
        (∀ c, (BodyPiece.unicode taken).meaning = [c] ↔ Names (unsigned taken) c) ∧
        ((¬ ∃ c, Names (unsigned taken) c) →
          (BodyPiece.unicode taken).meaning = (BodyPiece.unicode taken).chars) ∧
        ((∀ c, (BodyPiece.unicode taken).meaning = [c] ↔ Complete taken c) ↔
          taken.length = 4 ∧ taken.head? ≠ some '+' ∨ ¬ ∃ c, Names (unsigned taken) c) := by
  obtain ⟨ps, hcuts, hdecode⟩ := exists_cutsBody body
  refine ⟨ps, hcuts, fun qs hqs => hqs.unique hcuts, hdecode, ?_⟩
  intro taken _
  exact ⟨fun c => unicodeEscape_eq_singleton, unicodeEscape_eq_copy, complete_iff_unsigned⟩

/-- Two digits at the end, and three behind a sign, stand for a letter. -/
theorem decodeEscapes_pieces_short :
    decodeEscapes "\\u+041\\u41".toList = "AA".toList ∧
      ∃ ps, CutsBody "\\u+041\\u41".toList ps ∧ .unicode ['4', '1'] ∈ ps ∧
        Names ['4', '1'] 'A' ∧ ¬ Complete ['4', '1'] 'A' := by
  have hshort : (BodyPiece.unicode ['4', '1']).Fits [] := .fewer (by decide)
  have hsigned : (BodyPiece.unicode ['+', '0', '4', '1']).Fits "\\u41".toList := .four rfl
  have hcuts := CutsBody.cons hsigned (.cons hshort .nil)
  obtain ⟨ps, -, hunique, -, hpieces⟩ := decodeEscapes_pieces "\\u+041\\u41".toList
  have hps := hunique _ hcuts
  have hmem : .unicode ['4', '1'] ∈ ps := by
    rw [← hps]
    exact .tail _ (.head _)
  refine ⟨by decide, _, hcuts, hps ▸ hmem, ((hpieces _ hmem).1 'A').mp (by decide), ?_⟩
  rintro ⟨hlength, -⟩
  cases hlength

end GatewayPolicy
