/-!
Terminal text: the control sequences that set the colour of what is printed.
-/

namespace Workflow.Terminal

/-- The control sequence that selects a rendition. -/
def sequence (code : String) : String := "\x1b[" ++ code ++ "m"

def reset : String := sequence "0"

def red : String := sequence "31"

def green : String := sequence "32"

def yellow : String := sequence "33"

def cyan : String := sequence "36"

/-- Text in a colour. -/
def inColor (color text : String) : String := color ++ text ++ reset

end Workflow.Terminal
