/-!
# Manual — what the calculator says about itself

An overview and six topics.  A topic is found under several names, in any mixture of upper and lower case.
-/
namespace Reckoner

inductive Topic where
  | numbers
  | operators
  | roots
  | brackets
  | answer
  | errors
deriving DecidableEq, Repr

namespace Manual

/-- Lines of text, each with its line feed. -/
def unlines (lines : List String) : String := String.join (lines.map (· ++ "\n"))

def overview : String := unlines [
    "TALLY DOCUMENTATION",
    "",
    "Tally evaluates one arithmetic expression per line and prints the result.",
    "Characters it does not recognise, spaces included, are ignored.",
    "",
    "DOCUMENTATION CATEGORIES",
    "",
    "  numbers           Number literals and decimal separators",
    "  operators         Binary operators and precedence",
    "  roots             Roots, square roots and the square root symbol",
    "  brackets          Grouping with parentheses",
    "  answer            Reusing the previous result with `a`",
    "  errors            What each error line means",
    "",
    "QUICK REFERENCE",
    "",
    "  2+3*4             14",
    "  (2+3)*4           20",
    "  2^10              1024",
    "  3v8               2",
    "  √16               4",
    "  a*2               previous answer doubled",
    "",
    "Run 'tally doc <category>' for detailed documentation."]

end Manual

namespace Topic

open Manual (unlines)

def page : Topic → String
  | numbers => unlines [
    "NUMBERS",
    "",
    "  Digits with an optional decimal separator. `.` and `,` are the same",
    "  separator, so 3.5 and 3,5 are equal.",
    "",
    "    12        12",
    "    .5        0.5",
    "    3,25      3.25",
    "",
    "  A literal with two separators (1.2.3) is a syntax error. Two numbers next",
    "  to each other with no operator between them (2 3) are a syntax error."]
  | operators => unlines [
    "OPERATORS",
    "",
    "  ^ v       power, root               highest",
    "  * /       multiply, divide",
    "  + -       add, subtract             lowest",
    "",
    "  Higher operators are applied first. Operators of the same level are",
    "  applied left to right:",
    "",
    "    2+3*4     14",
    "    10-2-3    5",
    "    2^3^2     64",
    "",
    "  Signs:",
    "    --5       5       (runs of signs collapse)",
    "    -5        -5      (a leading sign subtracts from 0)",
    "    2*-3      -6      (a sign after an operator belongs to the number)",
    "    2**3      SYNTAX ERROR"]
  | roots => unlines [
    "ROOTS",
    "",
    "  x v y is the x-th root of y. The degree comes first:",
    "",
    "    3v8       2",
    "    2v9       3",
    "",
    "  The square root prefix is shorthand for 2v:",
    "",
    "    √16       4",
    "    2*√9      6",
    "",
    "  The prefix symbol defaults to √ and can be changed with --sqrt-symbol.",
    "  It cannot be a digit, a separator, whitespace, or another operator.",
    "",
    "  An even root of a negative number has no real result:",
    "",
    "    2v-4      ROOT OF NEGATIVE ERROR"]
  | brackets => unlines [
    "BRACKETS",
    "",
    "  Parentheses group a sub-expression, which is evaluated on its own first:",
    "",
    "    (2+3)*4       20",
    "    -(2+3)        -5",
    "    ((1+1)^2)v16  2",
    "",
    "  Every ( needs a matching ). Unmatched or empty brackets are a syntax error.",
    "  There is no implicit multiplication: 2(3) is a syntax error."]
  | answer => unlines [
    "ANSWER",
    "",
    "  `a` stands for the result of the previous successful evaluation. It is 0",
    "  before anything has been evaluated, and errors leave it unchanged.",
    "",
    "    tally repl",
    "    > 6*7",
    "    42",
    "    > a/2",
    "    21",
    "",
    "  `a` is most useful in `tally repl`, where every line shares one answer."]
  | errors => unlines [
    "ERRORS",
    "",
    "  SYNTAX ERROR",
    "    The line is empty, has misplaced operators, unmatched brackets or a",
    "    malformed number.",
    "",
    "  ROOT OF NEGATIVE ERROR",
    "    A root or power has no real result, such as 2v-4 or (-8)^0.5.",
    "",
    "  UNKNOWN ERROR",
    "    Any other failure, such as 1/0. With --ieee these results print as",
    "    inf or NaN instead.",
    "",
    "  Errors are printed in place of the result; the exit status stays 0."]

def names : Topic → List String
  | numbers => ["numbers", "number", "literals"]
  | operators => ["operators", "ops", "precedence"]
  | roots => ["roots", "root", "sqrt"]
  | brackets => ["brackets", "parentheses", "parens"]
  | answer => ["answer", "ans", "a"]
  | errors => ["errors", "error"]

/-- All topics, in the order of the overview. -/
def all : List Topic := [numbers, operators, roots, brackets, answer, errors]

/-- A letter in lower case, as far as the names of topics can tell: besides the ASCII capitals only the Kelvin sign is
the capital of an ASCII letter. -/
def lowered (c : Char) : Char := if c == '\u212a' then 'k' else c.toLower

/-- **The topic with a name**, whatever the case of its letters. -/
def ofName? (name : String) : Option Topic :=
  let name := String.ofList (name.toList.map lowered)
  all.find? (fun t => t.names.contains name)

end Topic
end Reckoner
