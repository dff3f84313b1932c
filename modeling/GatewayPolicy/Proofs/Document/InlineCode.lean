import GatewayPolicy.Proofs.Document.Building
import GatewayPolicy.Proofs.Document.LiteralData

/-! # Inline code in documents

  Inline code is copied from the sources of a policy and is meant to reach the
  document as it stands. So an operation must not change the texts that it is
  given: each value of the node that it adds is one of them, or a word of its own.

  - `Slot.chars_edit` says what is written of a marked text.
  - `Handler.run_filled` is the result. One slot is an exception: what is done with a
    header of a response is written in lower case, code or not.
-/

namespace GatewayPolicy

section Handling

variable {h : Handler} {site : Site} {b : Bindings} {call : Call}

theorem Handler.run_fills {node : Node} (hrun : (h.run site b call).run.value = some node)
    (parent : String) :
    ∀ p ∈ node.filled parent, h.Fills (call.sources site b) p.1 p.2 :=
  (Handler.run_built hrun).filled (fun htags => htags.values) parent

/-- Marked markup is copied without the mark. -/
theorem plainMarkup_of_inline {t : String} (ht : isInline t = true) :
    (plainMarkup t).toList = t.toList.tail := by
  have hwritten := valueChars_of_inline ht escapeText
  obtain ⟨code, hcode⟩ := Option.isSome_iff_exists.1 ht
  rw [← hwritten, plainMarkup, valueChars, hcode]
  rfl

/-- A marked text is written without its mark, whichever slot it is put in. -/
theorem Slot.chars_edit (slot : Slot) {t : String} (ht : isInline t = true) :
    slot.chars (h.edit slot t) =
      (if h.lowers slot then Text.lowerCase t else t).toList.tail := by
  by_cases hmarkup : slot = .markup
  · subst hmarkup
    have hlowers : h.lowers .markup = false := by simp [Handler.lowers, Slot.existsAction]
    rw [Handler.edit_markup, hlowers, if_neg Bool.false_ne_true]
    exact plainMarkup_of_inline ht
  · have hwritten : ∀ u, isInline u = true → slot.chars u = u.toList.tail := by
      intro u hu
      cases slot with
      | attributeOf element name => exact valueChars_of_inline hu _
      | contentOf element => exact valueChars_of_inline hu _
      | markup => exact absurd rfl hmarkup
    cases hlowers : h.lowers slot with
    | true =>
      rw [Handler.edit_lowered hlowers, if_pos rfl]
      exact hwritten _ (by rw [isInline_lowerCase, ht])
    | false =>
      rw [Handler.edit_copied hlowers hmarkup, if_neg Bool.false_ne_true]
      exact hwritten t ht

end Handling

/-! ## Copied code -/

/-- Every value of a node that a call adds is a word of the operation or a text of the call,
    from the place that belongs to its slot. The text is copied character for character, and
    inline code is found in the written document without its mark. Markup is copied without
    the mark already. The action of a response's header is the only text that is changed. -/
theorem Handler.run_filled {h : Handler} {site : Site} {b : Bindings} {call : Call} {node : Node}
    (hrun : (h.run site b call).run.value = some node) {slot : Slot} {v : String}
    (hv : (slot, v) ∈ node.filled "") :
    h.Supplies slot v ∨ ∃ s ∈ call.sources site b, h.Routes s.origin slot ∧
      (h.lowers slot = false → slot ≠ .markup → v = s.text) ∧
      (slot = .markup → v = plainMarkup s.text) ∧
      (h.lowers slot = true → v = Text.lowerCase s.text) ∧
      (isInline s.text = true → ∀ layout depth,
        (if h.lowers slot then Text.lowerCase s.text else s.text).toList.tail <:+:
          node.chars layout depth) := by
  rcases Handler.run_fills hrun "" (slot, v) hv with hword | ⟨s, hs, hroute, hedit⟩
  · exact .inl hword
  · have hvalue : v = h.edit slot s.text := hedit
    subst hvalue
    right
    refine ⟨s, hs, hroute, ?_, ?_, ?_, ?_⟩
    · intro hlowers hmarkup
      exact Handler.edit_copied hlowers hmarkup s.text
    · rintro rfl
      exact Handler.edit_markup s.text
    · intro hlowers
      exact Handler.edit_lowered hlowers s.text
    · intro hinline layout depth
      rw [← Slot.chars_edit slot hinline]
      exact Node.chars_filled layout depth "" node hv

/-- A response whose header takes its name and its action from a method. -/
def headerFile : SourceFile where
  name := "a.cs"
  text := "class C \x7b string A(I c) => c.User; void M(I c) \x7b c.ReturnResponse(new() \x7b " ++
    "Headers = [new() \x7b Name = A(c), ExistsAction = A(c) \x7d] \x7d); \x7d \x7d"

/-- The class of the response. -/
def headerModel : Model where
  trees := (parseAll [headerFile]).toOption.getD []

/-- The section of the response. -/
def headerSite : Site where
  model := headerModel
  part := (headerModel.partsOf "C").headD default
  receiver := "c"

/-- The call in the section. -/
def headerCall : Call :=
  match headerModel.statements? "C" "M" with
  | some (.expression (.call _ _ arguments span) _ :: _) =>
    { method := "ReturnResponse", arguments, span }
  | _ => default

/-- The code of the method is given twice. As the name of the header it is copied, and as
    the action it is put in lower case, which makes other code of it. -/
theorem Handler.run_filled_header :
    headerCall.sources headerSite [] =
        [⟨.field "Name", "\x01@(c.User)"⟩, ⟨.field "ExistsAction", "\x01@(c.User)"⟩] ∧
      ∃ node, ((Handler.statement .response).run headerSite [] headerCall).run.value = some node ∧
        node.filled "" = [(.attributeOf "set-header" "name", "\x01@(c.User)"),
          (.existsAction, "\x01@(c.user)")] ∧
        ∀ slot v, (slot, v) ∈ node.filled "" →
          (Handler.statement .response).Supplies slot v ∨
          ∃ s ∈ headerCall.sources headerSite [],
            (Handler.statement .response).Routes s.origin slot ∧
            ((Handler.statement .response).lowers slot = false → slot ≠ .markup → v = s.text) ∧
            (slot = .markup → v = plainMarkup s.text) ∧
            ((Handler.statement .response).lowers slot = true → v = Text.lowerCase s.text) ∧
            (isInline s.text = true → ∀ layout depth,
              (if (Handler.statement .response).lowers slot then Text.lowerCase s.text
                else s.text).toList.tail <:+: node.chars layout depth) := by
  have hheader : headerCall.sources headerSite [] =
        [⟨.field "Name", "\x01@(c.User)"⟩, ⟨.field "ExistsAction", "\x01@(c.User)"⟩] ∧
      ((Handler.statement .response).run headerSite [] headerCall).run.value.map
        (fun node => node.filled "") = some [(.attributeOf "set-header" "name", "\x01@(c.User)"),
          (.existsAction, "\x01@(c.user)")] := by
    decide +kernel
  obtain ⟨hsources, hfilled⟩ := hheader
  obtain ⟨node, hrun, hfilled⟩ := Option.map_eq_some_iff.1 hfilled
  exact ⟨hsources, node, hrun, hfilled, fun slot v hv => Handler.run_filled hrun hv⟩

end GatewayPolicy
