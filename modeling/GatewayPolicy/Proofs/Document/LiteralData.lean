import GatewayPolicy.Proofs.Document.Formatting

/-! # Literal data in documents

  Inline code is told from data by a marker in front of it. The marker is meant
  never to lead data, but a string literal may spell it with an escape. So data is
  escaped when it is written, unless the literal it comes from spells the marker.

  - `Model.markedTexts` lists the texts of literals that spell the marker.
  - `isInline_lowerCase` shows that lower case neither makes nor drops a marker.
  - `compile_literalData` says which values are written as code, for files that give
    only literal data to operations.
-/

namespace GatewayPolicy

/-! ## Markers and lower case -/

/-- No capital is the marker, and none becomes the marker. -/
theorem capitalRuns_plain :
    ∀ r ∈ Text.capitalRuns, inlineMarker.toNat < r.1 ∧ inlineMarker.toNat < r.2.2.2 := by
  decide +kernel

/-- A number that is no character's gives the character zero. -/
theorem toNat_charOfNat (n : Nat) : (Char.ofNat n).toNat = n ∨ (Char.ofNat n).toNat = 0 := by
  unfold Char.ofNat
  by_cases h : n.isValidChar
  · rw [dif_pos h]
    exact .inl rfl
  · rw [dif_neg h]
    exact .inr rfl

theorem lowerChar_eq_marker_iff (c : Char) :
    Text.lowerChar c = inlineMarker ↔ c = inlineMarker := by
  unfold Text.lowerChar
  dsimp only
  split
  · rename_i first last step image hrun
    obtain ⟨hfirst, himage⟩ : inlineMarker.toNat < first ∧ inlineMarker.toNat < image :=
      capitalRuns_plain _ (List.mem_of_find?_eq_some hrun)
    have hrange := List.find?_some hrun
    simp only [Bool.and_eq_true, decide_eq_true_eq] at hrange
    -- both characters are beyond the marker
    constructor
    · intro h
      have hmarker : 0 < inlineMarker.toNat := by decide
      rcases toNat_charOfNat (image + (c.toNat - first)) with hnat | hnat
      · rw [h] at hnat
        omega
      · rw [h] at hnat
        omega
    · rintro rfl
      omega
  · exact Iff.rfl

theorem isInline_iff (t : String) :
    isInline t = true ↔ t.toList.head? = some inlineMarker := by
  unfold isInline stripMarker
  cases t.toList with
  | nil => simp
  | cons c cs =>
    by_cases h : c = inlineMarker
    · simp [h]
    · simp [h]

theorem head?_lowerChars (before cs : List Char) :
    (Text.lowerChars before cs).head? = some inlineMarker ↔ cs.head? = some inlineMarker := by
  cases cs with
  | nil => rfl
  | cons c cs =>
    have hlower := lowerChar_eq_marker_iff c
    rw [Text.lowerChars]
    -- two capitals are not lowered by the map of single characters
    by_cases hsigma : c = 'Σ'
    · subst hsigma
      have hne : Text.lowerSigma before cs ≠ inlineMarker := by
        unfold Text.lowerSigma
        split <;> decide
      rw [if_pos rfl, List.singleton_append, List.head?_cons, List.head?_cons]
      exact iff_of_false (fun h => hne (Option.some.inj h)) (by decide)
    · rw [if_neg hsigma]
      by_cases hdotted : c = 'İ'
      · subst hdotted
        rw [if_pos rfl, List.cons_append, List.head?_cons, List.head?_cons]
        exact iff_of_false (by decide) (by decide)
      · rw [if_neg hdotted, List.singleton_append, List.head?_cons, List.head?_cons,
          Option.some.injEq, Option.some.injEq]
        exact hlower

/-- Lower case neither makes nor drops a marker. -/
theorem isInline_lowerCase (t : String) : isInline (Text.lowerCase t) = isInline t := by
  rw [Bool.eq_iff_iff, isInline_iff, isInline_iff]
  unfold Text.lowerCase
  rw [String.toList_ofList]
  exact head?_lowerChars [] t.toList

/-! ## Data -/

namespace Model

/-- Operations are given only data, made of literals without code in them. -/
def IsLiteralData (m : Model) : Prop :=
  ∀ x ∈ m.operationArguments, x.value.IsDataOf fun l => l.kind ≠ .interpolated

instance (m : Model) : Decidable m.IsLiteralData :=
  inferInstanceAs (Decidable (∀ x ∈ m.operationArguments,
    x.value.isData = true ∧ ∀ l ∈ x.value.literals, l.kind ≠ .interpolated))

/-- The texts of literals that spell the marker, of those given to operations. -/
def markedTexts (m : Model) : List String :=
  ((m.operationArguments.flatMap fun x => x.value.literals).filter fun l =>
    l.kind == .string && isInline l.value).map (·.value)

theorem mem_markedTexts {m : Model} {x : Argument} (hx : x ∈ m.operationArguments) {l : Literal}
    (hl : l ∈ x.value.literals) (hkind : l.kind = .string) (hmarker : isInline l.value = true) :
    l.value ∈ m.markedTexts := by
  refine List.mem_map.2 ⟨l, List.mem_filter.2 ⟨List.mem_flatMap.2 ⟨x, hx, hl⟩, ?_⟩, rfl⟩
  simp [hkind, hmarker]

theorem isInline_of_mem_markedTexts {m : Model} {t : String} (h : t ∈ m.markedTexts) :
    isInline t = true := by
  obtain ⟨l, hl, rfl⟩ := List.mem_map.1 h
  have hmarked := (List.mem_filter.1 hl).2
  rw [Bool.and_eq_true] at hmarked
  exact hmarked.2

end Model

/-- Claims of texts that they are led by a marker only if they are among `texts`, or
    in lower case if they are written. -/
def Comparison.markedAmong (texts : List String) : Comparison where
  diagnostic := fun _ _ => True
  text := fun t => isInline t = true → t ∈ texts
  written := fun v => isInline v = true → ∃ t ∈ texts, v = t ∨ v = Text.lowerCase t
  plain := by
    intro t hplain hmarker
    rw [hplain] at hmarker
    cases hmarker
  copied := fun h hmarker => ⟨_, h hmarker, .inl rfl⟩
  lowerCase := by
    intro t h hmarker
    rw [isInline_lowerCase] at hmarker
    exact ⟨t, h hmarker, .inr rfl⟩

theorem Model.IsLiteralData.supplies {m : Model} (h : m.IsLiteralData) :
    m.Supplies (.markedAmong m.markedTexts) := by
  intro x hx
  obtain ⟨hdata, hliterals⟩ := h x hx
  right
  refine ⟨hdata, fun l hl => ⟨hliterals l hl, ?_⟩⟩
  intro hkind hmarker
  exact Model.mem_markedTexts hx hl hkind hmarker

/-! ## Documents -/

/-- Inline code is written as it stands, without its marker. -/
theorem valueChars_of_inline {v : String} (h : isInline v = true) (escape : Char → List Char) :
    valueChars escape v = v.toList.tail := by
  obtain ⟨cs, hcs⟩ := List.head?_eq_some_iff.1 ((isInline_iff v).1 h)
  unfold valueChars stripMarker
  rw [hcs]
  dsimp only
  rw [if_pos rfl]
  exact String.toList_ofList

/-- Of files that give only literal data to operations, exactly those values are taken for
    code that a literal spells with the marker in front, maybe in lower case. They are
    written as they stand, without the marker, and all others are escaped. The condition of a
    branch is none of the values (`Node.values`): it is code and comes from no operation. -/
theorem compile_literalData {files : List SourceFile} {trees : List SourceTree}
    (hparse : parseAll files = .ok trees) (hdata : Model.IsLiteralData { trees }) :
    ∃ ds, compile files = .ok ds ∧ ∀ d ∈ ds, ∀ v ∈ d.root.toNode.values,
      (isInline v = true ↔ ∃ t ∈ Model.markedTexts { trees }, v = t ∨ v = Text.lowerCase t) ∧
      (isInline v = true → ∀ escape, valueChars escape v = v.toList.tail) ∧
      (isInline v = false → ∀ escape, valueChars escape v = v.toList.flatMap escape) := by
  let C := Comparison.markedAmong (Model.markedTexts { trees })
  have hread : List.Forall₂ (SourceFile.ReadAlike C) files files := by
    refine List.forall₂_same.2 fun f hf => ?_
    obtain ⟨tree, -, htree⟩ := (mem_of_mapM hparse).1 f hf
    exact SourceFile.readAlike_itself htree fun _ => trivial
  have hsupplies : ∀ ts, parseAll files = .ok ts → Model.Supplies C { trees := ts } := by
    intro ts hparse'
    cases hparse.symm.trans hparse'
    exact hdata.supplies
  have hcompile : compile files = .ok (Model.documents { trees }) := by
    unfold compile
    rw [hparse]
    rfl
  -- compared with itself, the compilation says of each value what the comparison claims
  have hagree := compile_jointly hread hsupplies
  rw [hcompile] at hagree
  cases hagree with
  | ok hdocuments =>
    refine ⟨_, hcompile, fun d hd v hv =>
      ⟨⟨?_, ?_⟩, valueChars_of_inline, valueChars_of_plain⟩⟩
    · exact ((List.forall₂_same.1 hdocuments) d hd).root.2 v hv
    · rintro ⟨t, ht, rfl | rfl⟩
      · exact Model.isInline_of_mem_markedTexts ht
      · rw [isInline_lowerCase]
        exact Model.isInline_of_mem_markedTexts ht

/-- A document with two bodies. The literal of the second spells the marker. -/
def spelledFile : SourceFile where
  name := "a.cs"
  text := "[Document] class C \x7b void Inbound(I c) \x7b" ++
    "c.SetBody(\"<a>\"); c.SetBody(\"\\u0001<b>\"); \x7d \x7d"

/-- The two bodies are literal data, and one is led by the marker. -/
theorem compile_literalData_spelled :
    ∃ trees, parseAll [spelledFile] = .ok trees ∧ Model.IsLiteralData { trees } ∧
      Model.markedTexts { trees } = ["\x01<b>"] ∧
      ∃ ds, compile [spelledFile] = .ok ds ∧ ∀ d ∈ ds, ∀ v ∈ d.root.toNode.values,
        (isInline v = true ↔ ∃ t ∈ Model.markedTexts { trees }, v = t ∨ v = Text.lowerCase t) ∧
        (isInline v = true → ∀ escape, valueChars escape v = v.toList.tail) ∧
        (isInline v = false → ∀ escape, valueChars escape v = v.toList.flatMap escape) := by
  have hdata : ((parseAll [spelledFile]).toOption.map fun trees =>
      decide (Model.IsLiteralData { trees } ∧ Model.markedTexts { trees } = ["\x01<b>"])) =
        some true := by
    decide +kernel
  cases hparse : parseAll [spelledFile] with
  | error e =>
    rw [hparse] at hdata
    cases hdata
  | ok trees =>
    rw [hparse] at hdata
    obtain ⟨hliteral, hmarked⟩ := of_decide_eq_true (Option.some.inj hdata)
    exact ⟨trees, rfl, hliteral, hmarked, compile_literalData hparse hliteral⟩

/-- The first body is escaped, and the second is written as if it were code. -/
example : (compile [spelledFile]).toOption.map (fun ds => ds.map fun d => d.root.toXml .compact) =
    some ["<policies><inbound><set-body>&lt;a&gt;</set-body><set-body><b></set-body>" ++
      "</inbound></policies>"] := by
  decide +kernel

end GatewayPolicy
