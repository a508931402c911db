import ServerRun.Text.Blank
import ServerRun.Text.Digit

/-! The colours of log lines and of the environment banner, as six hexadecimal digits after a number
sign, and as escape sequences of terminals. -/

namespace ServerRun.Log

def amber : String := "#E8A33D"
def green : String := "#5B8A72"
def muted : String := "#88A896"
def dim : String := "#4A5C54"
def pale : String := "#EFF8E2"
def red : String := "#B5452F"
def blue : String := "#5B9BD5"

/-- The value of a hexadecimal digit or of a decimal digit of any script. -/
def hexOrDigit? (c : Char) : Option Nat := (Text.hexValue? c).or (Text.digitValue? c)

/-- The number that a component of a colour writes: one or two hexadecimal digits; a sign or blanks
may stand for one of them. -/
def component? (cs : List Char) : Option Int :=
  let digits? (ds : List Char) : Option Int :=
    if ds = [] then none
    else ((ds.mapM hexOrDigit?).map fun ns => ((ns.foldl (fun n d => n * 16 + d) 0 : Nat) : Int))
  match Text.trim cs with
  | '+' :: ds => digits? ds
  | '-' :: ds => (digits? ds).map (-·)
  | ds => digits? ds

/-- The escape sequence that makes a terminal write in a colour; nothing if the text is no
colour. -/
def terminalColor? (color : String) : Option String := do
  let cs := color.toList.dropWhile (· == '#')
  let r ← component? (cs.take 2)
  let g ← component? ((cs.drop 2).take 2)
  let b ← component? ((cs.drop 4).take 2)
  some ("\x1b[38;2;" ++ toString r ++ ";" ++ toString g ++ ";" ++ toString b ++ "m")

/-- The escape sequence that ends all colours. -/
def resetColor : String := "\x1b[0m"

/-- A text in a colour. -/
def inColor (color text : String) : String :=
  (terminalColor? color).getD "" ++ text ++ resetColor

/-- What is printed before a server is launched: where its virtual machine and the server are. -/
def banner (javaHome : Option String) (home : String) : String :=
  let java := match javaHome with
    | some j => if j = "" then "(from PATH)" else j
    | none => "(from PATH)"
  "  " ++ (terminalColor? muted).getD "" ++ "JAVA_HOME:" ++ resetColor ++ "   " ++
    inColor blue java ++ "\n" ++
  "  " ++ (terminalColor? muted).getD "" ++ "SERVER_HOME:" ++ resetColor ++ " " ++
    inColor green home ++ "\n" ++ "\n"

end ServerRun.Log
