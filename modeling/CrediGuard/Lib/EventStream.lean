import Mathlib.Data.List.Basic

/-!
The event-stream format: lines that end at LF, CR or CRLF, comments, the fields of
an event, and the blank line that dispatches it.

`parse` reads the format. `Item.text` writes one event or one comment, and a run of
items is read back as its events, whatever else stands in their texts, as long as no
text breaks its line. Which ids a reader takes is its own rule.
-/

namespace EventStream

structure Event where
  id : String
  event : String
  data : String
  deriving DecidableEq

section Read
variable (takesId : String → Bool)

/-- The lines of a text, behind what is read of the first one in reverse. What
follows the last line end is no line. -/
def linesFrom : List Char → List Char → List (List Char)
  | _, [] => []
  | line, '\r' :: '\n' :: cs => line.reverse :: linesFrom [] cs
  | line, '\r' :: cs => line.reverse :: linesFrom [] cs
  | line, '\n' :: cs => line.reverse :: linesFrom [] cs
  | line, c :: cs => linesFrom (c :: line) cs

structure Buffers where
  lastEventId : List Char := []
  eventType : List Char := []
  data : List Char := []

def Buffers.field (b : Buffers) (name value : List Char) : Buffers :=
  if name = ['i', 'd'] then
    if takesId (String.ofList value) then { b with lastEventId := value } else b
  else if name = ['e', 'v', 'e', 'n', 't'] then { b with eventType := value }
  else if name = ['d', 'a', 't', 'a'] then { b with data := b.data ++ value ++ ['\n'] }
  -- `retry` sets a delay of the reader, and any other name is ignored.
  else b

def Buffers.dispatched (b : Buffers) : Option Event :=
  if b.data = [] then none
  else some
    { id := String.ofList b.lastEventId
      event := if b.eventType = [] then "message" else String.ofList b.eventType
      data := String.ofList b.data.dropLast }

def Buffers.cleared (b : Buffers) : Buffers := { b with eventType := [], data := [] }

def dropSpace : List Char → List Char
  | ' ' :: cs => cs
  | cs => cs

def fieldName (line : List Char) : List Char := line.takeWhile (· ≠ ':')

def fieldValue (line : List Char) : List Char := dropSpace (line.dropWhile (· ≠ ':')).tail

def readLines : Buffers → List (List Char) → List Event
  | _, [] => []
  | b, line :: lines =>
      if line = [] then b.dispatched.toList ++ readLines b.cleared lines
      else if line.head? = some ':' then readLines b lines
      else readLines (b.field takesId (fieldName line) (fieldValue line)) lines

/-- The rule of the format: an id without NUL. -/
def plainId (id : String) : Bool := Char.ofNat 0 ∉ id.toList

def dropMark : List Char → List Char
  | '\uFEFF' :: cs => cs
  | cs => cs

def parse (s : String) : List Event := readLines takesId {} (linesFrom [] (dropMark s.toList))

end Read

section Write

def LineFree (cs : List Char) : Prop := ∀ c ∈ cs, c ≠ '\n' ∧ c ≠ '\r'

instance (cs : List Char) : Decidable (LineFree cs) :=
  decidable_of_iff ((cs.all fun c => c ≠ '\n' ∧ c ≠ '\r') = true) (by simp [LineFree])

inductive Item where
  | comment (text : String)
  | event (e : Event)

def fieldText (name : List Char) (value : String) : List Char :=
  name ++ ':' :: ' ' :: (value.toList ++ ['\n'])

def Item.text : Item → List Char
  | .comment text => ':' :: (text.toList ++ ['\n', '\n'])
  | .event e => fieldText ['i', 'd'] e.id ++ (fieldText ['e', 'v', 'e', 'n', 't'] e.event ++
      (fieldText ['d', 'a', 't', 'a'] e.data ++ ['\n']))

def Item.event? : Item → Option Event
  | .comment _ => none
  | .event e => some e

/-- A reader that takes ids by the rule can read the item. -/
def Item.Readable (takesId : String → Bool) : Item → Prop
  | .comment text => LineFree text.toList
  | .event e => LineFree e.id.toList ∧ takesId e.id = true ∧
      LineFree e.event.toList ∧ e.event ≠ "" ∧ LineFree e.data.toList

end Write

section Lines

theorem linesFrom_cons {c : Char} (hcr : c ≠ '\r') (hlf : c ≠ '\n') (line cs : List Char) :
    linesFrom line (c :: cs) = linesFrom (c :: line) cs := by
  apply linesFrom.eq_5
  · intro cs' h _
    exact hcr h
  · exact hcr
  · exact hlf

theorem linesFrom_append {cs : List Char} (h : LineFree cs) (line rest : List Char) :
    linesFrom line (cs ++ '\n' :: rest) = (line.reverse ++ cs) :: linesFrom [] rest := by
  induction cs generalizing line with
  | nil => simp [linesFrom]
  | cons c cs ih =>
      obtain ⟨hlf, hcr⟩ := h c List.mem_cons_self
      rw [List.cons_append, linesFrom_cons hcr hlf, ih fun d hd => h d (List.mem_cons_of_mem _ hd),
        List.reverse_cons, List.append_assoc, List.singleton_append]

end Lines

section Fields
variable {takesId : String → Bool} {name : List Char}

theorem takeWhile_ne_append (h : ':' ∉ name) (cs : List Char) :
    (name ++ ':' :: cs).takeWhile (· ≠ ':') = name := by
  rw [List.takeWhile_append_of_pos]
  · simp
  · intro c hc
    exact decide_eq_true fun heq => h (heq ▸ hc)

theorem dropWhile_ne_append (h : ':' ∉ name) (cs : List Char) :
    (name ++ ':' :: cs).dropWhile (· ≠ ':') = ':' :: cs := by
  rw [List.dropWhile_append_of_pos]
  · simp
  · intro c hc
    exact decide_eq_true fun heq => h (heq ▸ hc)

/-- A line of one field sets the field to its value. -/
theorem readLines_field (b : Buffers) (hne : name ≠ []) (hcolon : ':' ∉ name) (value : List Char)
    (lines : List (List Char)) :
    readLines takesId b ((name ++ ':' :: ' ' :: value) :: lines) =
      readLines takesId (b.field takesId name value) lines := by
  have hhead : (name ++ ':' :: ' ' :: value).head? ≠ some ':' := by
    cases name with
    | nil => exact absurd rfl hne
    | cons c cs =>
        intro h
        exact hcolon (List.mem_cons.mpr (.inl (Option.some.inj h).symm))
  have hline : name ++ ':' :: ' ' :: value ≠ [] := List.append_ne_nil_of_left_ne_nil hne _
  rw [readLines, if_neg hline, if_neg hhead, fieldName, fieldValue, takeWhile_ne_append hcolon,
    dropWhile_ne_append hcolon]
  rfl

theorem readLines_fieldText (b : Buffers) (hne : name ≠ []) (hcolon : ':' ∉ name)
    (hname : LineFree name) {value : String} (hvalue : LineFree value.toList) (rest : List Char) :
    readLines takesId b (linesFrom [] (fieldText name value ++ rest)) =
      readLines takesId (b.field takesId name value.toList) (linesFrom [] rest) := by
  have hline : LineFree (name ++ ':' :: ' ' :: value.toList) := by
    intro c hc
    simp only [List.mem_append, List.mem_cons] at hc
    obtain hc | rfl | rfl | hc := hc
    · exact hname c hc
    · decide
    · decide
    · exact hvalue c hc
  have htext : fieldText name value ++ rest =
      (name ++ ':' :: ' ' :: value.toList) ++ '\n' :: rest := by
    simp [fieldText]
  rw [htext, linesFrom_append hline, List.reverse_nil, List.nil_append,
    readLines_field b hne hcolon]

end Fields

section Main
variable {takesId : String → Bool}

/-- Nothing of an event is left over. -/
def Buffers.Clear (b : Buffers) : Prop := b.eventType = [] ∧ b.data = []

theorem readLines_comment (b : Buffers) {line : List Char} (h : LineFree line)
    (rest : List Char) :
    readLines takesId b (linesFrom [] (':' :: (line ++ '\n' :: rest))) =
      readLines takesId b (linesFrom [] rest) := by
  rw [linesFrom_cons (by decide) (by decide), linesFrom_append h]
  rfl

theorem readLines_blank (b : Buffers) (rest : List Char) :
    readLines takesId b (linesFrom [] ('\n' :: rest)) =
      b.dispatched.toList ++ readLines takesId b.cleared (linesFrom [] rest) := rfl

/-- A reader between two events reads one item and is between two events again. -/
theorem readLines_text {b : Buffers} (hb : b.Clear) {i : Item} (h : i.Readable takesId) :
    ∃ b' : Buffers, b'.Clear ∧ ∀ rest,
      readLines takesId b (linesFrom [] (i.text ++ rest)) =
        i.event?.toList ++ readLines takesId b' (linesFrom [] rest) := by
  obtain ⟨htype, hdata⟩ := hb
  cases i with
  | comment text =>
      refine ⟨b.cleared, ⟨rfl, rfl⟩, ?_⟩
      intro rest
      have htext : (Item.comment text).text ++ rest =
          ':' :: (text.toList ++ '\n' :: '\n' :: rest) := by simp [Item.text]
      rw [htext, readLines_comment b h, readLines_blank, Buffers.dispatched, if_pos hdata]
      rfl
  | event e =>
      obtain ⟨hid, htakes, hevent, hne, hvalue⟩ := h
      have hfields : ((b.field takesId ['i', 'd'] e.id.toList).field takesId
          ['e', 'v', 'e', 'n', 't'] e.event.toList).field takesId ['d', 'a', 't', 'a']
          e.data.toList = ⟨e.id.toList, e.event.toList, e.data.toList ++ ['\n']⟩ := by
        simp [Buffers.field, htakes, hdata]
      have hdispatched : Buffers.dispatched ⟨e.id.toList, e.event.toList,
          e.data.toList ++ ['\n']⟩ = some e := by
        simp [Buffers.dispatched, hne]
      refine ⟨⟨e.id.toList, [], []⟩, ⟨rfl, rfl⟩, ?_⟩
      intro rest
      rw [Item.text, List.append_assoc,
        readLines_fieldText b (by decide) (by decide) (by decide) hid, List.append_assoc,
        readLines_fieldText _ (by decide) (by decide) (by decide) hevent, List.append_assoc,
        readLines_fieldText _ (by decide) (by decide) (by decide) hvalue, hfields,
        List.singleton_append, readLines_blank, hdispatched]
      rfl

theorem readLines_texts {b : Buffers} (hb : b.Clear) {items : List Item}
    (h : ∀ i ∈ items, i.Readable takesId) :
    readLines takesId b (linesFrom [] (items.flatMap Item.text)) =
      items.filterMap Item.event? := by
  induction items generalizing b with
  | nil => rfl
  | cons i items ih =>
      obtain ⟨b', hb', hread⟩ := readLines_text hb (h i List.mem_cons_self)
      rw [List.flatMap_cons, hread, ih hb' fun j hj => h j (List.mem_cons_of_mem _ hj),
        List.filterMap_cons]
      cases i.event? <;> rfl

theorem dropMark_text (i : Item) (rest : List Char) :
    dropMark (i.text ++ rest) = i.text ++ rest := by
  cases i <;> rfl

/-- A run of items is read back as its events. -/
theorem parse_texts {items : List Item} (h : ∀ i ∈ items, i.Readable takesId) :
    parse takesId (String.ofList (items.flatMap Item.text)) = items.filterMap Item.event? := by
  have hmark : dropMark (items.flatMap Item.text) = items.flatMap Item.text := by
    cases items with
    | nil => rfl
    | cons i items => exact dropMark_text i _
  rw [parse, String.toList_ofList, hmark]
  exact readLines_texts ⟨rfl, rfl⟩ h

end Main

end EventStream
