import ScriptLint.Yaml.Node
import ScriptLint.Yaml.TokenStream

/-!
# Documents

A YAML text with at most one document, as a tree in which aliases can be looked up.
-/

namespace ScriptLint.Yaml

structure Document where
  /-- The tree; a text that holds nothing has none. -/
  root : Option Node
  deriving Inhabited

namespace Document

/-- The node that an alias stands for; any other node stands for itself. -/
def resolve (d : Document) (n : Node) : Node :=
  match n with
  | .alias i => (((d.root.elim [] Node.anchored).reverse.lookup i).getD n)
  | n => n

/-! ### Reading documents from tokens -/

/-- The tag handles that need no directive. -/
def defaultHandles : List (Text × Text) := [(['!'], ['!']), (['!', '!'], "tag:yaml.org,2002:".toList)]

/-- Reads the directives of a document: the handles that they declare, and the tokens behind them. -/
def directives (version : Bool) (handles : List (Text × Text)) :
    List Token → Except Fault (List (Text × Text) × List Token)
  | .versionDirective major minor :: rest =>
    if version then .error .duplicateDirective
    else if major = 1 ∧ (minor = 1 ∨ minor = 2) then directives true handles rest
    else .error .badVersion
  | .tagDirective handle stem :: rest =>
    if (handles.lookup handle).isSome then .error .duplicateDirective
    else directives version (handles ++ [(handle, stem)]) rest
  | rest => .ok (handles, rest)

/-- Is the token one that only stands between documents? -/
def isBoundary : Token → Bool
  | .versionDirective .. | .tagDirective .. | .documentStart | .documentEnd => true
  | _ => false

/-- Reads the one node of a document and what follows it.  A token is taken at least every third step, so that
the number of tokens tells how much fuel is enough. -/
def content (handles : List (Text × Text)) (tokens : List Token) : Except Fault (Node × List Token) := do
  let (n, s) ← (NodeReader.node (4 * (tokens.length + 1)) true false).run
    { tokens, handles := handles ++ defaultHandles }
  return (n, s.tokens)

/-- Reads the tokens of a text. -/
def ofTokens (tokens : List Token) : Except Fault Document := do
  let finish (n : Node) (rest : List Token) : Except Fault Document :=
    match rest.dropWhile (· == .documentEnd) with
    | [] => .ok ⟨some n⟩
    | t :: _ => .error (if isBoundary t then .severalDocuments else .missingDocumentStart)
  match tokens with
  | [] => return ⟨none⟩
  | t :: _ =>
    if isBoundary t && t != .documentEnd then
      let (handles, rest) ← directives false [] tokens
      match rest with
      | .documentStart :: rest =>
        if rest.head?.all isBoundary then finish .empty rest
        else
          let (n, rest) ← content handles rest
          finish n rest
      | _ => .error .missingDocumentStart
    else
      let (n, rest) ← content [] tokens
      finish n rest

def ofText (t : Text) : Except Fault Document := Token.ofText t >>= ofTokens

end Document

end ScriptLint.Yaml
