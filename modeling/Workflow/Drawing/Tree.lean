import Workflow.Drawing.Outline
import Workflow.Terminal

/-!
Drawings of outlines as trees: one line for each state in document order, and beneath it one for
each document nested in it with the states of that document beneath. Every line of the tree starts
with groups of four characters that say where it hangs.
-/

namespace Workflow.Drawing

/-- Whether a drawing has colours and icons. -/
structure Style where
  colors : Bool := true
  icons : Bool := true

namespace Style

def paint (style : Style) (code text : String) : String :=
  if style.colors then Terminal.inColor (Terminal.sequence code) text else text

def icon (style : Style) (icon : String) : String := if style.icons then icon ++ " " else ""

end Style

/-- The colour code and the icon of a type. -/
def typeStyle (type : String) : String × String :=
  match StateType.all.find? (·.name = type) with
  | some .task => ("94", "🔧")
  | some .choice => ("95", "🔀")
  | some .wait => ("91", "⏳")
  | some .parallel => ("97", "⏩")
  | some .map => ("96", "🔁")
  | some .pass => ("92", "➡️")
  | some .succeed => ("32", "✅")
  | some .fail => ("31", "❌")
  | none => ("0", "")

def transitionColor : String := "33"

def descriptionColor : String := "90"

def titleColor : String := "1;36"

def Remark.text (style : Style) : Remark → String
  | leads targets => style.paint transitionColor s!"→ {targets}"
  | default target => style.paint transitionColor s!"(default → {target})"
  | ends => if style.icons then "⏹️" else "(end)"
  | catches errors target =>
    style.paint descriptionColor (style.icon "🛟" ++ s!"{errors} → {target}")
  | retries count => style.paint descriptionColor s!"(retry x{count})"

def StateLine.text (style : Style) (line : StateLine) : String :=
  let (color, icon) := typeStyle line.type
  " ".intercalate
    (s!"{style.icon icon}{style.paint color line.name} [{line.type}]" ::
      line.remarks.map (Remark.text style))

def Caption.text (style : Style) (c : Caption) : String :=
  style.icon "🌿" ++ style.paint descriptionColor c.label ++ s!" (start at {c.start})"

/-- Hangs items with what is beneath each of them under one another. The last item ends the line
that leads down from item to item. -/
def hang : List (String × List String) → List String
  | [] => []
  | [(head, beneath)] => ("└── " ++ head) :: beneath.map ("    " ++ ·)
  | (head, beneath) :: rest =>
    ("├── " ++ head) :: beneath.map ("│   " ++ ·) ++ hang rest

/-- The lines of the states of a document, given the lines of the documents nested in them. -/
def stateLines (style : Style) (states : List (StateLine × List (String × List String))) :
    List String :=
  hang (states.map fun e => (e.1.text style, hang e.2))

/-- A nested document: its caption and the lines beneath it. -/
def Outline.lines (style : Style) : Outline → String × List String :=
  Nested.fold fun caption states => (caption.text style, stateLines style states)

/-- The lines of a drawing. -/
def Sheet.lines (style : Style) (sheet : Sheet) : List String :=
  (style.icon "🔄" ++ style.paint titleColor sheet.heading) ::
    (sheet.timeout.map fun t => style.paint descriptionColor s!"Timeout: {t}s").toList ++
    stateLines style (sheet.states.map fun e => (e.1, e.2.map (Outline.lines style)))

/-- Draws a document. -/
def draw (style : Style) (doc : Json) (title : Option String) : Except Fault String := do
  let sheet ← Sheet.ofJson doc title
  return "\n".intercalate (sheet.lines style)

end Workflow.Drawing
