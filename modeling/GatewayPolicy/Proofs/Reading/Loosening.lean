import GatewayPolicy.Authoring.TypeName

/-! # Parses that allow more

  Nothing but the end of the allowance looks at the limit on nesting. A parse
  that stays within its limit therefore does the same under a looser one, and a
  parse that does not is marked for good, whatever it tries afterwards.

  - `Step.Loosens` compares two outcomes: they are the same, or the first is marked.
  - `Parse.Loosens` compares two parses. It is a class, so that a production has it
    because its parts do; here are the ways to build parses, and those parses that
    know nothing of nesting.
-/

namespace GatewayPolicy

-- a production of many steps takes an instance for each of them
set_option synthInstance.maxSize 1024

/-! ## Outcomes -/

/-- The nesting with which a parse ends. -/
def Step.nesting {α : Type} : Step α → Nesting
  | .ok _ _ n => n
  | .fail _ n => n

/-- Code was nested too deeply. -/
def Nesting.Exceeded (n : Nesting) : Prop := n.exceeded.isSome = true

/-- Code was not nested too deeply so far. -/
def Nesting.Within (n : Nesting) : Prop := n.exceeded = none

/-- The nesting stays as it is, or a mark is set. -/
def Nesting.KeptBy (n m : Nesting) : Prop := m = n ∨ m.Exceeded

theorem Nesting.KeptBy.trans {n m k : Nesting} (h : n.KeptBy m) (h' : m.KeptBy k) : n.KeptBy k := by
  rcases h' with rfl | hmark
  · exact h
  · exact .inr hmark

/-- Outcomes of which the second is the first, unless the first exceeded its limit. -/
inductive Step.Loosens {α : Type} : Step α → Step α → Prop where
  | exceeded {x y : Step α} (h : x.nesting.Exceeded) : Loosens x y
  | ok (v : α) (c : Cursor) {n n' : Nesting} (h : n.Within) (h' : n'.Within) :
      Loosens (.ok v c n) (.ok v c n')
  | fail (e : SyntaxError) {n n' : Nesting} (h : n.Within) (h' : n'.Within) :
      Loosens (.fail e n) (.fail e n')

namespace Parse

variable {α β : Type}

/-- A parse and one that allows more. -/
class Loosens (p q : Parse α) : Prop where
  keeps : ∀ (c : Cursor) (n : Nesting), n.KeptBy (p c n).nesting
  same : ∀ (c : Cursor) {n n' : Nesting}, n.Within → n'.Within → (p c n).Loosens (q c n')

/-- A mark that was set stays. -/
theorem Loosens.sticky {p q : Parse α} (h : Loosens p q) (c : Cursor) {n : Nesting}
    (hn : n.Exceeded) : (p c n).nesting.Exceeded := by
  rcases h.keeps c n with hsame | hmark
  · rwa [hsame]
  · exact hmark

/-- A parse that leaves no mark leaves the nesting as it was. -/
theorem Loosens.nesting_eq {p q : Parse α} (h : Loosens p q) {c : Cursor} {n : Nesting}
    (hwithin : (p c n).nesting.Within) : (p c n).nesting = n := by
  rcases h.keeps c n with hsame | hmark
  · exact hsame
  · rw [Nesting.Exceeded, hwithin] at hmark
    cases hmark

section Combinators

variable {p q p' q' : Parse α} {f g : α → Parse β} {b : Prop} [Decidable b]

theorem Loosens.bind (hp : Loosens p q) (hf : ∀ v, Loosens (f v) (g v)) :
    Loosens (p >>= f) (q >>= g) where
  keeps c n := by
    have hpn := hp.keeps c n
    show n.KeptBy (Parse.bind p f c n).nesting
    unfold Parse.bind
    cases hstep : p c n with
    | ok v d m =>
      rw [hstep] at hpn
      exact hpn.trans ((hf v).keeps d m)
    | fail e m =>
      rw [hstep] at hpn
      exact hpn
  same c n n' hn hn' := by
    have hpq := hp.same c hn hn'
    show (Parse.bind p f c n).Loosens (Parse.bind q g c n')
    unfold Parse.bind
    generalize p c n = x, q c n' = y at hpq
    cases hpq with
    | exceeded h =>
      cases x with
      | ok v d m => exact .exceeded ((hf v).sticky d h)
      | fail e m => exact .exceeded h
    | ok v d hm hm' => exact (hf v).same d hm hm'
    | fail e hm hm' => exact .fail e hm hm'

instance [hp : Loosens p q] [hf : ∀ v, Loosens (f v) (g v)] : Loosens (p >>= f) (q >>= g) :=
  hp.bind hf

instance [Loosens p q] [Loosens p' q'] :
    Loosens (if b then p else p') (if b then q else q') := by
  split <;> infer_instance

instance [hp : Loosens p q] : Loosens (observe p) (observe q) where
  keeps c n := by
    have hpn := hp.keeps c n
    unfold observe
    cases hstep : p c n with
    | ok v d m =>
      rw [hstep] at hpn
      exact hpn
    | fail e m =>
      rw [hstep] at hpn
      exact hpn
  same c n n' hn hn' := by
    have hpq := hp.same c hn hn'
    unfold observe
    generalize p c n = x, q c n' = y at hpq
    cases hpq with
    | exceeded h => cases x <;> exact .exceeded h
    | ok v d hm hm' => exact .ok _ d hm hm'
    | fail e hm hm' => exact .ok _ c hm hm'

instance [hp : Loosens p q] : Loosens (attempt p) (attempt q) where
  keeps c n := by
    have hpn := hp.keeps c n
    unfold attempt
    cases hstep : p c n with
    | ok v d m =>
      rw [hstep] at hpn
      exact hpn
    | fail e m =>
      rw [hstep] at hpn
      exact hpn
  same c n n' hn hn' := by
    have hpq := hp.same c hn hn'
    unfold attempt
    generalize p c n = x, q c n' = y at hpq
    cases hpq with
    | exceeded h => cases x <;> exact .exceeded h
    | ok v d hm hm' => exact .ok _ d hm hm'
    | fail e hm hm' => exact .ok _ c hm hm'

instance loosens_bounded {loop loop' : Nat → Parse α} [h : ∀ k, Loosens (loop k) (loop' k)] :
    Loosens (bounded loop) (bounded loop') where
  keeps c n := (h _).keeps c n
  same c _ _ hn hn' := (h _).same c hn hn'

/-- The end of the allowance always leaves a mark, so anything may stand below it. -/
instance loosens_tooDeep : Loosens tooDeep q where
  keeps _ _ := .inr rfl
  same _ _ _ _ _ := .exceeded rfl

end Combinators

/-- A parse that passes the nesting on as it is. -/
theorem loosens_of_steady {p : Parse α}
    (h : ∀ c, (∃ v d, ∀ n, p c n = .ok v d n) ∨ ∃ e, ∀ n, p c n = .fail e n) : Loosens p p where
  keeps c n := by
    rcases h c with ⟨v, d, h⟩ | ⟨e, h⟩
    · rw [h]
      exact .inl rfl
    · rw [h]
      exact .inl rfl
  same c n n' hn hn' := by
    rcases h c with ⟨v, d, h⟩ | ⟨e, h⟩
    · rw [h, h]
      exact .ok v d hn hn'
    · rw [h, h]
      exact .fail e hn hn'

/-- A parse that takes tokens and always succeeds. -/
theorem loosens_ok (value : Cursor → α) (behind : Cursor → Cursor) :
    Loosens (fun c n => .ok (value c) (behind c) n) fun c n => .ok (value c) (behind c) n :=
  loosens_of_steady fun _ => .inl ⟨_, _, fun _ => rfl⟩

instance (v : α) : Loosens (Pure.pure v) (Pure.pure v) := loosens_ok _ _
instance (v : α) : Loosens (Parse.pure v) (Parse.pure v) := loosens_ok _ _
instance (e : SyntaxError) : Loosens (throw e : Parse α) (throw e) :=
  loosens_of_steady fun _ => .inr ⟨_, fun _ => rfl⟩
instance : Loosens cursor cursor := loosens_ok _ _
instance (c : Cursor) : Loosens (rewind c) (rewind c) := loosens_ok _ _
instance : Loosens peek peek := loosens_ok _ _
instance (k : Nat) : Loosens (peekAt k) (peekAt k) := loosens_ok _ _
instance : Loosens here here := loosens_ok _ _
instance : Loosens last last := loosens_ok _ _
instance : Loosens advance advance := loosens_ok _ _
instance (p : Token → Bool) : Loosens (takeWhile p) (takeWhile p) := loosens_ok _ _
instance (s : Symbol) : Loosens (at? s) (at? s) := loosens_ok _ _
instance (ss : List Symbol) : Loosens (atAny? ss) (atAny? ss) := loosens_ok _ _
instance (w : String) : Loosens (atWord? w) (atWord? w) := loosens_ok _ _

/-- Before the limit is exceeded, both parses see that it was not. -/
instance : Loosens exceeded exceeded where
  keeps _ _ := .inl rfl
  same c n n' hn hn' := by
    unfold exceeded
    rw [hn, hn']
    exact .ok _ c hn hn'

/-- A choice between two parses by the next token. -/
theorem loosens_choice {p q p' q' : Parse α} (test : Token → Bool) (h : Loosens p q)
    (h' : Loosens p' q') :
    Loosens (fun c n => if test c.peek = true then p c n else p' c n)
      (fun c n => if test c.peek = true then q c n else q' c n) where
  keeps c n := by
    show n.KeptBy (Step.nesting (ite ..))
    split
    · exact h.keeps c n
    · exact h'.keeps c n
  same c n n' hn hn' := by
    show Step.Loosens (ite ..) (ite ..)
    split
    · exact h.same c hn hn'
    · exact h'.same c hn hn'

instance (s : Symbol) : Loosens (eat s) (eat s) :=
  loosens_choice (·.isSymbol s) (loosens_ok (fun _ => true) Cursor.next)
    (loosens_ok (fun _ => false) id)

instance (w : String) : Loosens (eatWord w) (eatWord w) :=
  loosens_choice (·.isWord w) (loosens_ok (fun _ => true) Cursor.next)
    (loosens_ok (fun _ => false) id)

instance (what : Expectation) : Loosens (expected what : Parse α) (expected what) :=
  loosens_of_steady fun _ => .inr ⟨_, fun _ => rfl⟩

instance (s : Symbol) : Loosens (expect s) (expect s) :=
  loosens_choice (·.isSymbol s) (loosens_ok Cursor.peek Cursor.next)
    (inferInstanceAs (Loosens (expected (.symbol s)) (expected (.symbol s))))

instance (w : String) : Loosens (expectWord w) (expectWord w) :=
  loosens_choice (·.isWord w) (loosens_ok Cursor.peek Cursor.next)
    (inferInstanceAs (Loosens (expected (.word w)) (expected (.word w))))

instance : Loosens expectName expectName :=
  loosens_choice Token.isName (loosens_ok Cursor.peek Cursor.next)
    (inferInstanceAs (Loosens (expected .identifier) (expected .identifier)))

instance (s : Symbol) : Loosens (require s) (require s) :=
  loosens_choice (·.isSymbol s) (loosens_ok (fun _ => ()) id)
    (inferInstanceAs (Loosens (expected (.symbol s)) (expected (.symbol s))))

/-! ## Lists and skipped code -/

section Lists

variable {p q : Parse α} [Loosens p q]

instance (k : Nat) : Loosens (commaListWithin p k) (commaListWithin q k) := by
  induction k with
  | zero =>
    unfold commaListWithin
    infer_instance
  | succ k ih =>
    unfold commaListWithin
    infer_instance

instance : Loosens (commaList p) (commaList q) := by
  unfold commaList
  infer_instance

instance (close : Symbol) (k : Nat) : Loosens (itemsWithin close p k) (itemsWithin close q k) := by
  induction k with
  | zero =>
    unfold itemsWithin
    infer_instance
  | succ k ih =>
    unfold itemsWithin
    infer_instance

instance (close : Symbol) : Loosens (itemsUntil close p) (itemsUntil close q) := by
  unfold itemsUntil
  infer_instance

end Lists

instance : Loosens skipGroup skipGroup := by
  refine loosens_of_steady fun c => ?_
  unfold skipGroup
  dsimp only
  split
  · exact .inr ⟨_, fun _ => rfl⟩
  · split
    · exact .inl ⟨_, _, fun _ => rfl⟩
    · exact .inr ⟨_, fun _ => rfl⟩

instance (group stop : Token → Bool) (k : Nat) :
    Loosens (skipToWithin group stop k) (skipToWithin group stop k) := by
  induction k with
  | zero =>
    unfold skipToWithin
    infer_instance
  | succ k ih =>
    unfold skipToWithin
    infer_instance

instance (group stop : Token → Bool) : Loosens (skipTo group stop) (skipTo group stop) := by
  unfold skipTo
  infer_instance

instance : Loosens skipUntilSemicolon skipUntilSemicolon := by
  unfold skipUntilSemicolon
  infer_instance

instance : Loosens skipPastSemicolon skipPastSemicolon := by
  unfold skipPastSemicolon
  infer_instance

instance : Loosens skipStatement skipStatement := by
  unfold skipStatement
  infer_instance

instance : Loosens skipMember skipMember := by
  unfold skipMember
  infer_instance

instance : Loosens skipTypeBody skipTypeBody := by
  unfold skipTypeBody
  infer_instance

instance : Loosens skipConstraints skipConstraints := by
  unfold skipConstraints
  infer_instance

instance : Loosens skipAngles skipAngles := by
  unfold skipAngles
  apply Loosens.bind inferInstance
  intro opening
  apply Loosens.bind inferInstance
  intro c
  split <;> infer_instance

/-! ## Types -/

section Types

variable {type type' : Parse String} [Loosens type type']

instance : Loosens (typeArgumentsOf type) (typeArgumentsOf type') := by
  unfold typeArgumentsOf
  infer_instance

instance (k : Nat) : Loosens (typePathWithin type k) (typePathWithin type' k) := by
  induction k with
  | zero =>
    unfold typePathWithin
    infer_instance
  | succ k ih =>
    unfold typePathWithin
    infer_instance

instance (k : Nat) : Loosens (typeEndingWithin k) (typeEndingWithin k) := by
  induction k with
  | zero =>
    unfold typeEndingWithin
    infer_instance
  | succ k ih =>
    unfold typeEndingWithin
    infer_instance

instance loosens_typeOf : Loosens (typeOf type) (typeOf type') := by
  unfold typeOf
  infer_instance

end Types

theorem loosens_typeWithin (depth : Nat) : Loosens (typeWithin depth) (typeWithin depth) := by
  induction depth with
  | zero => exact inferInstanceAs (Loosens (expected .typeName) (expected .typeName))
  | succ depth ih => exact @loosens_typeOf (typeWithin depth) (typeWithin depth) ih

instance : Loosens typeName typeName :=
  @loosens_bounded _ typeWithin typeWithin loosens_typeWithin

instance : Loosens typeArguments typeArguments := by
  unfold typeArguments
  infer_instance

instance : Loosens callTypeArguments callTypeArguments := by
  unfold callTypeArguments
  infer_instance

end Parse

end GatewayPolicy
