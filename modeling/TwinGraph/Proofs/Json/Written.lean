import TwinGraph.Json.Printer
import TwinGraph.Json.Reader

/-! The texts of a value. Blanks may stand behind commas and colons, and numbers may carry a mark;
without either the text is the written form. -/
namespace TwinGraph.Json

def Gap (s : Text) : Prop := ∀ c ∈ s, isSpace c = true

variable {α β : Type}

/-- The items behind the first, each behind a comma, and the closing bracket. -/
inductive Listed (R : α → Text → Prop) (close : Char) : List α → Text → Prop where
  | nil : Listed R close [] [close]
  | cons {a as gap s t} : Gap gap → R a s → Listed R close as t →
      Listed R close (a :: as) (',' :: gap ++ s ++ t)

inductive Bracketed (R : α → Text → Prop) (opening close : Char) : List α → Text → Prop where
  | nil : Bracketed R opening close [] [opening, close]
  | cons {a as s t} : R a s → Listed R close as t →
      Bracketed R opening close (a :: as) (opening :: s ++ t)

inductive Named (R : α → Text → Prop) : Text × α → Text → Prop where
  | field {name a gap s} : Gap gap → R a s →
      Named R (name, a) (renderString name ++ ':' :: gap ++ s)

inductive Written (mark : Text → Prop) : Json → Text → Prop where
  | null : Written mark null "null"
  | bool (b) : Written mark (bool b) (render (bool b))
  | number (n) {m} : mark m → Written mark (number n) (n.render ++ m)
  | string (s) : Written mark (string s) (renderString s)
  | array {items s} : Bracketed (Written mark) '[' ']' items s → Written mark (array items) s
  | object {fields s} : Bracketed (Named (Written mark)) '{' '}' fields s →
      Written mark (object fields) s

abbrev Spaced : Json → Text → Prop := Written (· = [])

theorem gap_nil : Gap [] := fun _ h => absurd h List.not_mem_nil

theorem Listed.map {R : α → Text → Prop} {R' : β → Text → Prop} {f : α → β}
    (hf : ∀ a s, R a s → R' (f a) s) {close : Char} {as : List α} {s : Text}
    (h : Listed R close as s) : Listed R' close (as.map f) s := by
  induction h with
  | nil => exact .nil
  | cons hgap ha _ ih => exact .cons hgap (hf _ _ ha) ih

theorem Bracketed.map {R : α → Text → Prop} {R' : β → Text → Prop} {f : α → β}
    (hf : ∀ a s, R a s → R' (f a) s) {opening close : Char} {as : List α} {s : Text}
    (h : Bracketed R opening close as s) : Bracketed R' opening close (as.map f) s := by
  cases h with
  | nil => exact .nil
  | cons ha hrest => exact .cons (hf _ _ ha) (hrest.map hf)

theorem Listed.length_pos {R : α → Text → Prop} {close : Char} {as : List α} {t : Text}
    (h : Listed R close as t) : 0 < t.length := by
  cases h <;> exact Nat.succ_pos _

section
variable {mark : Text → Prop}

mutual

/-- The written form is a text of the value whichever mark a number may carry: it carries none. -/
theorem written_render (hmark : mark []) : (j : Json) → Written mark j j.render
  | null => .null
  | bool b => .bool b
  | number n => by
    have h : Written mark (number n) (n.render ++ []) := .number n hmark
    rwa [List.append_nil] at h
  | string s => .string s
  | array [] => .array .nil
  | array (item :: items) =>
    .array (.cons (written_render hmark item) (listed_renderItems hmark items))
  | object [] => .object .nil
  | object ((name, value) :: fields) => by
    have hfirst : Named (Written mark) (name, value)
        (renderString name ++ ':' :: [] ++ value.render) :=
      .field gap_nil (written_render hmark value)
    have h : Written mark (object ((name, value) :: fields))
        ('{' :: (renderString name ++ ':' :: [] ++ value.render) ++ renderFields fields) :=
      .object (.cons hfirst (listed_renderFields hmark fields))
    rw [render]
    simpa using h

theorem listed_renderItems (hmark : mark []) :
    (items : List Json) → Listed (Written mark) ']' items (renderItems items)
  | [] => .nil
  | item :: items => .cons gap_nil (written_render hmark item) (listed_renderItems hmark items)

theorem listed_renderFields (hmark : mark []) : (fields : List (Text × Json)) →
    Listed (Named (Written mark)) '}' fields (renderFields fields)
  | [] => .nil
  | (name, value) :: fields => by
    have hfirst : Named (Written mark) (name, value)
        (renderString name ++ ':' :: [] ++ value.render) :=
      .field gap_nil (written_render hmark value)
    have h : Listed (Named (Written mark)) '}' ((name, value) :: fields)
        (',' :: [] ++ (renderString name ++ ':' :: [] ++ value.render) ++ renderFields fields) :=
      .cons gap_nil hfirst (listed_renderFields hmark fields)
    rw [renderFields]
    simpa using h

end

end

theorem spaced_render (j : Json) : Spaced j j.render := @written_render (· = []) rfl j

end TwinGraph.Json
