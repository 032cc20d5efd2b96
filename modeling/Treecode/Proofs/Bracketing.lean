import Mathlib
import Treecode.Instruction.Dump

set_option autoImplicit false

namespace Treecode.Dump

/-- The characters of names, of numbers and of the other constants that stand without quotes. -/
def inAtom (c : Char) : Bool := c.isAlphanum || c == '_' || c == '-' || c == '.'

/-- A text without an inner structure. -/
@[ext] structure Atom where
  text : String
  nonempty : text ≠ ""
  plain : ∀ c ∈ text.toList, inAtom c

/-- Whether each quote and each backslash in a text belongs to an escape. -/
inductive Escaped : List Char → Prop
  | nil : Escaped []
  | plain {c : Char} {rest : List Char} (notQuote : c ≠ '"') (notBackslash : c ≠ '\\')
      (others : Escaped rest) : Escaped (c :: rest)
  | escape {c : Char} {rest : List Char} (others : Escaped rest) : Escaped ('\\' :: c :: rest)

/-- What may stand between two quotes. -/
@[ext] structure Quotation where
  text : List Char
  escaped : Escaped text

/-- A nested text. -/
inductive Tree where
  | atom (atom : Atom)
  | quotation (quotation : Quotation)
  | tuple (items : List Tree)
  | bracketed (items : List Tree)
  | braced (entries : List (Tree × Tree))

namespace Tree

mutual

/-- What is printed of a tree. -/
def text : Tree → String
  | .atom name => name.text
  | .quotation inner => String.ofList ('"' :: inner.text ++ ['"'])
  | .tuple items => Instruction.tuple (texts items)
  | .bracketed items => Instruction.bracketed (texts items)
  | .braced entries => "\x7b" ++ ", ".intercalate (entryTexts entries) ++ "\x7d"

def texts : List Tree → List String
  | [] => []
  | item :: items => item.text :: texts items

def entryTexts : List (Tree × Tree) → List String
  | [] => []
  | (key, value) :: entries => (key.text ++ ": " ++ value.text) :: entryTexts entries

end

attribute [simp] text texts

def entryText (entry : Tree × Tree) : String := entry.1.text ++ ": " ++ entry.2.text

theorem texts_eq (items : List Tree) : texts items = items.map text := by
  induction items with
  | nil => rfl
  | cons item items ih => rw [texts, ih, List.map_cons]

theorem entryTexts_eq (entries : List (Tree × Tree)) :
    entryTexts entries = entries.map entryText := by
  induction entries with
  | nil => rfl
  | cons entry entries ih => rw [entryTexts, ih, List.map_cons, entryText]

end Tree

/-- Whether an atom in front of a text ends there. -/
def Ends (rest : List Char) : Prop := ∀ c ∈ rest.head?, inAtom c = false

theorem ends_nil : Ends [] := by
  intro c member
  cases member

theorem ends_cons {c : Char} (rest : List Char) (outside : inAtom c = false) :
    Ends (c :: rest) := by
  intro d member
  obtain rfl := Option.some.inj member
  exact outside

/-- Whether what is printed of `a` shows that it is `a` and where it ends. -/
def Shown {α : Type} (text : α → String) (a : α) : Prop :=
  ∀ b rest rest', Ends rest → Ends rest' → (text a).toList ++ rest = (text b).toList ++ rest' →
    a = b ∧ rest = rest'

def closing : List Char := [')', ']', '\x7d']

/-- Whether a text starts, and with a character that closes no group. -/
def Begins (text : String) : Prop := ∃ c more, text.toList = c :: more ∧ c ∉ closing

theorem closing_outside {c : Char} (closes : c ∈ closing) : inAtom c = false ∧ c ≠ ',' := by
  simp only [closing, List.mem_cons, List.not_mem_nil, or_false] at closes
  obtain rfl | rfl | rfl := closes <;> decide

/-- The characters of an atom are those up to the first one that is in no atom. -/
theorem Atom.takeWhile_append (atom : Atom) {rest : List Char} (ends : Ends rest) :
    (atom.text.toList ++ rest).takeWhile inAtom = atom.text.toList := by
  rw [List.takeWhile_append_of_pos atom.plain]
  cases rest with
  | nil => exact List.append_nil _
  | cons c rest =>
    have outside := ends c rfl
    rw [List.takeWhile_cons_of_neg (by simp [outside]), List.append_nil]

theorem Atom.shown (atom : Atom) : Shown Atom.text atom := by
  intro other rest rest' ends ends' same
  have texts : atom.text.toList = other.text.toList := by
    rw [← atom.takeWhile_append ends, same, other.takeWhile_append ends']
  refine ⟨Atom.ext (String.toList_injective texts), ?_⟩
  rw [texts] at same
  exact List.append_cancel_left same

theorem Atom.begins (atom : Atom) : Begins atom.text := by
  cases split : atom.text.toList with
  | nil => exact absurd (String.toList_injective split) atom.nonempty
  | cons c more =>
    have plain := atom.plain c (split ▸ List.mem_cons_self ..)
    refine ⟨c, more, split, fun closes => ?_⟩
    rw [(closing_outside closes).1] at plain
    cases plain

theorem Escaped.append {text other : List Char} (escaped : Escaped text) (others : Escaped other) :
    Escaped (text ++ other) := by
  induction escaped with
  | nil => exact others
  | plain notQuote notBackslash _ ih => exact .plain notQuote notBackslash ih
  | escape _ ih => exact .escape ih

/-- The first quote outside of an escape is the one that closes. -/
theorem Escaped.closed {text other rest rest' : List Char} (escaped : Escaped text)
    (escaped' : Escaped other)
    (same : text ++ '"' :: rest = other ++ '"' :: rest') : text = other ∧ rest = rest' := by
  induction escaped generalizing other with
  | nil =>
    cases escaped' with
    | nil => exact ⟨rfl, (List.cons.inj same).2⟩
    | plain notQuote _ _ => exact absurd (List.cons.inj same).1.symm notQuote
    | escape _ => cases (List.cons.inj same).1
  | plain notQuote notBackslash _ ih =>
    cases escaped' with
    | nil => exact absurd (List.cons.inj same).1 notQuote
    | plain _ _ others =>
      obtain ⟨rfl, tails⟩ := List.cons.inj same
      obtain ⟨rfl, rests⟩ := ih others tails
      exact ⟨rfl, rests⟩
    | escape _ => exact absurd (List.cons.inj same).1 notBackslash
  | escape _ ih =>
    cases escaped' with
    | nil => cases (List.cons.inj same).1
    | plain _ notBackslash _ => exact absurd (List.cons.inj same).1.symm notBackslash
    | escape others =>
      obtain ⟨rfl, tails⟩ := List.cons.inj (List.cons.inj same).2
      obtain ⟨rfl, rests⟩ := ih others tails
      exact ⟨rfl, rests⟩

section Groups

variable {α : Type} {text : α → String}

/-- What is printed after the first item of a group: the others, each after a comma. -/
def following (text : α → String) : List α → List Char
  | [] => []
  | item :: items => ',' :: ' ' :: ((text item).toList ++ following text items)

theorem toList_intercalate_cons (item : α) (items : List α) :
    (", ".intercalate ((item :: items).map text)).toList = (text item).toList ++
    following text items := by
  rw [String.toList_intercalate]
  induction items generalizing item with
  | nil => simp [following]
  | cons second items ih =>
    have tail := ih second
    simp only [List.map_cons] at tail ⊢
    rw [List.intercalate_cons_cons, tail, List.append_assoc]
    rfl

theorem ends_following {close : Char} (outside : inAtom close = false) (items : List α)
    (rest : List Char) : Ends (following text items ++ close :: rest) := by
  cases items with
  | nil => exact ends_cons rest outside
  | cons item items => exact ends_cons _ rfl

/-- The items after the first one are shown up to the bracket that closes their group. -/
theorem following_shown {close : Char} (closes : close ∈ closing) {items : List α}
    (shown : ∀ item ∈ items, Shown text item) {others : List α} {rest rest' : List Char}
    (same : following text items ++ close :: rest = following text others ++ close :: rest') :
    items = others ∧ rest = rest' := by
  obtain ⟨outside, notComma⟩ := closing_outside closes
  induction items generalizing others with
  | nil =>
    cases others with
    | nil => exact ⟨rfl, (List.cons.inj same).2⟩
    | cons other others => exact absurd (List.cons.inj same).1 notComma
  | cons item items ih =>
    cases others with
    | nil => exact absurd (List.cons.inj same).1.symm notComma
    | cons other others =>
      rw [following, following, List.cons_append, List.cons_append, List.cons_append,
        List.cons_append, List.append_assoc, List.append_assoc] at same
      obtain ⟨rfl, tails⟩ := shown item
        (List.mem_cons_self ..) other _ _ (ends_following outside items rest)
        (ends_following outside others rest') (List.cons.inj (List.cons.inj same).2).2
      obtain ⟨rfl, rests⟩ := ih
        (fun item member => shown item (List.mem_cons_of_mem _ member)) tails
      exact ⟨rfl, rests⟩

theorem group_shown {close : Char} (closes : close ∈ closing) (begins : ∀ item, Begins (text item))
    {items : List α} (shown : ∀ item ∈ items, Shown text item) {others : List α}
    {rest rest' : List Char}
    (same : (", ".intercalate (items.map text)).toList ++ close :: rest =
      (", ".intercalate (others.map text)).toList ++ close :: rest') :
    items = others ∧ rest = rest' := by
  have unclosed (item : α) (items : List α) (back back' : List Char) :
      (", ".intercalate ((item :: items).map text)).toList ++ back ≠ close :: back' := by
    obtain ⟨c, more, split, opens⟩ := begins item
    rw [toList_intercalate_cons, split]
    intro same
    exact opens ((List.cons.inj same).1 ▸ closes)
  cases items with
  | nil =>
    cases others with
    | nil => exact ⟨rfl, (List.cons.inj same).2⟩
    | cons other others => exact absurd same.symm (unclosed other others _ _)
  | cons item items =>
    cases others with
    | nil => exact absurd same (unclosed item items _ _)
    | cons other others =>
      have outside := (closing_outside closes).1
      rw [toList_intercalate_cons, toList_intercalate_cons, List.append_assoc,
        List.append_assoc] at same
      obtain ⟨rfl, tails⟩ := shown item
        (List.mem_cons_self ..) other _ _ (ends_following outside items rest)
        (ends_following outside others rest') same
      obtain ⟨rfl, rests⟩ := following_shown closes
        (fun item member => shown item (List.mem_cons_of_mem _ member)) tails
      exact ⟨rfl, rests⟩

end Groups

namespace Tree

theorem toList_quotation (inner : Quotation) (rest : List Char) :
    (quotation inner).text.toList ++ rest = '"' :: (inner.text ++ '"' :: rest) := by
  rw [text, String.toList_ofList, List.cons_append, List.cons_append, List.append_assoc]
  rfl

theorem toList_tuple (items : List Tree) (rest : List Char) :
    (tuple items).text.toList ++ rest =
    '(' :: ((", ".intercalate (items.map text)).toList ++ ')' :: rest) := by
  rw [text, texts_eq, Instruction.tuple]
  simp

theorem toList_bracketed (items : List Tree) (rest : List Char) :
    (bracketed items).text.toList ++ rest =
      '[' :: ((", ".intercalate (items.map text)).toList ++ ']' :: rest) := by
  rw [text, texts_eq, Instruction.bracketed]
  simp

theorem toList_braced (entries : List (Tree × Tree)) (rest : List Char) :
    (braced entries).text.toList ++ rest =
      '\x7b' :: ((", ".intercalate (entries.map entryText)).toList ++ '\x7d' :: rest) := by
  rw [text, entryTexts_eq]
  simp

/-- The bracket or the quote that a tree starts with, if it is not an atom. -/
def opening? : Tree → Option Char
  | .atom _ => none
  | .quotation _ => some '"'
  | .tuple _ => some '('
  | .bracketed _ => some '['
  | .braced _ => some '\x7b'

/-- How a text starts tells what sort of a tree it is printed of. -/
theorem opening?_eq {tree : Tree} {rest more : List Char} {c : Char}
    (starts : tree.text.toList ++ rest = c :: more) :
    tree.opening? = if inAtom c then none else some c := by
  cases tree with
  | atom name =>
    obtain ⟨d, others, split, _⟩ := name.begins
    rw [text, split] at starts
    have plain := name.plain d (split ▸ List.mem_cons_self ..)
    rw [(List.cons.inj starts).1] at plain
    rw [opening?, if_pos plain]
  | quotation inner =>
    rw [toList_quotation] at starts
    rw [← (List.cons.inj starts).1]
    rfl
  | tuple items =>
    rw [toList_tuple] at starts
    rw [← (List.cons.inj starts).1]
    rfl
  | bracketed items =>
    rw [toList_bracketed] at starts
    rw [← (List.cons.inj starts).1]
    rfl
  | braced entries =>
    rw [toList_braced] at starts
    rw [← (List.cons.inj starts).1]
    rfl

theorem begins (tree : Tree) : Begins tree.text := by
  have first (c : Char) (more : List Char) (starts : tree.text.toList ++ [] = c :: more)
      (opens : c ∉ closing) : Begins tree.text :=
        ⟨c, more, by rw [← starts, List.append_nil], opens⟩
  cases tree with
  | atom name => exact name.begins
  | quotation inner => exact first _ _ (toList_quotation inner []) (by decide)
  | tuple items => exact first _ _ (toList_tuple items []) (by decide)
  | bracketed items => exact first _ _ (toList_bracketed items []) (by decide)
  | braced entries => exact first _ _ (toList_braced entries []) (by decide)

theorem entry_begins (entry : Tree × Tree) : Begins (entryText entry) := by
  obtain ⟨c, more, split, opens⟩ := entry.1.begins
  refine ⟨c, more ++ ": ".toList ++ entry.2.text.toList, ?_, opens⟩
  rw [entryText, String.toList_append, String.toList_append, split]
  rfl

theorem shown_entry {key value : Tree} (first : Shown text key) (last : Shown text value) :
    Shown entryText (key, value) := by
  rintro ⟨key', value'⟩ rest rest' ends ends' same
  have colon (back : List Char) : ": ".toList ++ back = ':' :: ' ' :: back := rfl
  simp only [entryText, String.toList_append, List.append_assoc, colon] at same
  obtain ⟨rfl, tails⟩ := first key' _ _ (ends_cons _ rfl) (ends_cons _ rfl) same
  obtain ⟨rfl, rests⟩ := last value' _ _ ends ends' (List.cons.inj (List.cons.inj tails).2).2
  exact ⟨rfl, rests⟩

mutual

/-- A nested text shows how it is made and where it ends. -/
theorem shown (tree : Tree) : Shown text tree := by
  intro other rest rest' ends ends' same
  have sorts : tree.opening? = other.opening? := by
    obtain ⟨c, more, split, _⟩ := tree.begins
    rw [opening?_eq (congrArg (· ++ rest) split),
      opening?_eq (same.symm.trans (congrArg (· ++ rest) split))]
  cases tree with
  | atom name =>
    cases other <;> cases sorts
    obtain ⟨rfl, rests⟩ := name.shown _ _ _ ends ends' same
    exact ⟨rfl, rests⟩
  | quotation inner =>
    cases other <;> cases sorts
    rw [toList_quotation, toList_quotation] at same
    obtain ⟨texts, rests⟩ := inner.escaped.closed (Quotation.escaped _) (List.cons.inj same).2
    exact ⟨congrArg quotation (Quotation.ext texts), rests⟩
  | tuple items =>
    cases other <;> cases sorts
    rw [toList_tuple, toList_tuple] at same
    obtain ⟨rfl, rests⟩ := group_shown (by decide) begins (allShown items) (List.cons.inj same).2
    exact ⟨rfl, rests⟩
  | bracketed items =>
    cases other <;> cases sorts
    rw [toList_bracketed, toList_bracketed] at same
    obtain ⟨rfl, rests⟩ := group_shown (by decide) begins (allShown items) (List.cons.inj same).2
    exact ⟨rfl, rests⟩
  | braced entries =>
    cases other <;> cases sorts
    rw [toList_braced, toList_braced] at same
    obtain ⟨rfl, rests⟩ := group_shown (by decide) entry_begins (entriesShown entries)
      (List.cons.inj same).2
    exact ⟨rfl, rests⟩

theorem allShown (items : List Tree) : ∀ item ∈ items, Shown text item := by
  cases items with
  | nil => 
    intro item member
    cases member
  | cons first items =>
    intro item member
    cases member with
    | head => exact shown first
    | tail _ member => exact allShown items item member

theorem entriesShown (entries : List (Tree × Tree)) : ∀ entry ∈ entries, Shown entryText entry := by
  match entries with
  | [] =>
    intro entry member
    cases member
  | (key, value) :: entries =>
    intro entry member
    cases member with
    | head => exact shown_entry (shown key) (shown value)
    | tail _ member => exact entriesShown entries entry member

end

/-- What is printed of a tree is printed of no other tree. -/
theorem text_injective : Function.Injective text := by
  intro tree other same
  exact (tree.shown other [] [] ends_nil ends_nil (by rw [same])).1

end Tree

end Treecode.Dump
