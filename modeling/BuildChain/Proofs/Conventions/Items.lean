import Mathlib.Data.Set.List
import BuildChain.Conventions
import BuildChain.Proofs.Text.Split

/-! # Items of a list property

Any run of commas and blanks separates items, and neither how long it is nor what it is made of
matters. So a list property falls into its items at every such run, and the items of a list are
found again however it is written.
-/

namespace BuildChain.Conventions

open Text

/-- Commas and blanks, or nothing at all. -/
structure Margin where
  text : Text
  separates : ∀ c ∈ text, c = ',' ∨ isBlank c = true

/-- What separates two items. -/
structure Gap extends Margin where
  ne_nil : text ≠ []

structure Item where
  text : Text
  ne_nil : text ≠ []
  comma_notMem : .char ',' ∉ text
  not_blank : ∀ c ∈ text, isBlank c = false

/-- Items in a row. A gap follows each of them, but for one that ends the text. -/
structure Listing where
  before : Margin
  spaced : List (Item × Gap)
  last : Option Item

namespace Listing

def text (listing : Listing) : Text :=
  listing.before.text ++ listing.spaced.flatMap (fun s => s.1.text ++ s.2.text) ++
    listing.last.toList.flatMap Item.text

def items (listing : Listing) : List Item :=
  listing.spaced.map Prod.fst ++ listing.last.toList

end Listing

variable {t : Text}

theorem Margin.separator (margin : Margin) :
    ∀ c ∈ margin.text, (c == ',' || isBlank c) = true := by
  simpa using margin.separates

theorem items_item (item : Item) : items item.text = [item.text] := by
  refine pieces_of_forall_not item.ne_nil fun c hc => ?_
  have hcomma : c ≠ ',' := ne_of_mem_of_not_mem hc item.comma_notMem
  simp [hcomma, item.not_blank c hc]

theorem items_append_gap (a b : Text) (gap : Gap) :
    items (a ++ gap.text ++ b) = items a ++ items b :=
  pieces_append_run gap.ne_nil gap.separator a b

theorem items_margin_append (margin : Margin) (t : Text) : items (margin.text ++ t) = items t :=
  pieces_skip margin.separator t

theorem exists_item_of_mem_items {p : Text} (hp : p ∈ items t) : ∃ item : Item, item.text = p := by
  obtain ⟨hne, hp⟩ := mem_pieces hp
  have hp : ∀ c ∈ p, c ≠ ',' ∧ isBlank c = false := by
    intro c hc
    simpa using (hp c hc).2
  exact ⟨⟨p, hne, fun hc => (hp _ hc).1 rfl, fun c hc => (hp c hc).2⟩, rfl⟩

theorem exists_items_eq (t : Text) : ∃ l : List Item, items t = l.map Item.text := by
  have hrange : items t ∈ Set.range (List.map Item.text) := by
    rw [Set.range_list_map]
    exact fun _ hp => exists_item_of_mem_items hp
  obtain ⟨l, hl⟩ := hrange
  exact ⟨l, hl.symm⟩

theorem items_spaced_append (spaced : List (Item × Gap)) (t : Text) :
    items (spaced.flatMap (fun s => s.1.text ++ s.2.text) ++ t) =
      spaced.map (·.1.text) ++ items t := by
  induction spaced with
  | nil => rfl
  | cons s spaced ih =>
    rw [List.flatMap_cons, List.append_assoc, items_append_gap, items_item, ih]
    rfl

theorem items_listing (listing : Listing) :
    items listing.text = listing.items.map Item.text := by
  have hlast : items (listing.last.toList.flatMap Item.text) =
      listing.last.toList.map Item.text := by
    cases listing.last with
    | none => rfl
    | some item => simpa using items_item item
  rw [Listing.text, List.append_assoc, items_margin_append, items_spaced_append, hlast,
    Listing.items, List.map_append, List.map_map]
  rfl

/-- A list property falls into its items at every run of commas and blanks. What it falls into are
items, and a list that is written with any such runs between and around its items gives them
back. -/
theorem items_separated :
    (∀ (a b : Text) (gap : Gap), items (a ++ gap.text ++ b) = items a ++ items b) ∧
    (∀ t, ∃ l : List Item, items t = l.map Item.text) ∧
    ∀ listing : Listing, items listing.text = listing.items.map Item.text :=
  ⟨items_append_gap, exists_items_eq, items_listing⟩

/-- The blank after `b` is one beyond ASCII. -/
example : items ",\n a,, b\u3000c-d ," = ["a", "b", "c-d"] := by
  decide

end BuildChain.Conventions
