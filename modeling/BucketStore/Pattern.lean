import BucketStore.Pattern.Bracket
import BucketStore.Text.Alphanumeric

namespace BucketStore.Pattern

open Text

inductive Fault
  | malformed
  | wordBoundary
deriving DecidableEq

def Fault.message : Fault → String
  | .malformed => "error building NFA"
  | .wordBoundary =>
    "unsupported regex feature for DFAs: cannot build DFAs for regexes with Unicode word " ++
      "boundaries; switch to ASCII word boundaries, or heuristically enable Unicode word " ++
      "boundaries or use a different regex engine"

/-- What a pattern has fixed up to some place: the switches that hold there, the names of its
groups, and whether it asked for a word boundary of Unicode. -/
structure Context where
  flags : Flags := {}
  names : List (List Char) := []
  boundary : Bool := false

/-- What was read of a group: the parts of its last branch, the depth of the last part if it can be
repeated, and the depth of the branches before. -/
structure Body where
  parts : Series := {}
  last : Option Nat := none
  branches : Option Nat := none

def Body.add (b : Body) (depth : Nat) : Body := ⟨b.parts.add depth, some depth, b.branches⟩

def Body.addSwitches (b : Body) : Body := ⟨b.parts.add 0, none, b.branches⟩

def Body.repeatLast? (b : Body) : Option Body :=
  b.last.map (fun depth =>
    ⟨⟨b.parts.count, max b.parts.deepest (depth + 1)⟩, some (depth + 1), b.branches⟩)

def Body.branch (b : Body) : Body := ⟨{}, none, some (max (b.branches.getD 0) b.parts.depth)⟩

def Body.depth (b : Body) : Nat :=
  match b.branches with
  | none => b.parts.depth
  | some depth => max depth b.parts.depth + 1

def depthLimit : Nat := 250

def isName : List Char → Bool
  | [] => false
  | c :: cs =>
    (c = '_' || isAlphabetic c) && cs.all (fun c => c ∈ ['_', '.', '[', ']'] || isAlphanumeric c)

def areSwitches (letters : List Char) : Bool :=
  letters.all (· ∈ "imsUuRx-".toList) && letters.Nodup && letters.getLast? ≠ some '-'

inductive Opening
  | group
  | switches

def readOpening? (ctx : Context) (cs : List Char) : Option (Opening × Context × List Char) :=
  let named (rest : List Char) : Option (Opening × Context × List Char) :=
    let name := rest.takeWhile (· ≠ '>')
    if isName name && rest.length ≠ name.length && name ∉ ctx.names then
      some (.group, { ctx with names := name :: ctx.names }, rest.drop (name.length + 1))
    else none
  match ctx.flags.skip cs with
  | '?' :: 'P' :: '<' :: rest => named rest
  | '?' :: '<' :: rest => named rest
  | '?' :: rest =>
    let letters := rest.takeWhile (fun c => c ≠ ':' && c ≠ ')')
    if areSwitches letters then
      let inner := { ctx with flags := ctx.flags.set letters }
      match rest.drop letters.length with
      | ':' :: rest => some (.group, inner, rest)
      | ')' :: rest => if letters = [] then none else some (.switches, inner, rest)
      | _ => none
    else none
  | rest => some (.group, ctx, rest)

/-- Without the switch for Unicode no part may match beyond ASCII unless it is written as it
stands, and with it there is no table to fold case. -/
def Context.admit? (ctx : Context) : Atom → Option Context
  | .literal code byte =>
    if ctx.flags.unicode then if ctx.flags.ignoreCase then none else some ctx
    else if byte && 128 ≤ code then none
    else some ctx
  | .dot => if ctx.flags.unicode then some ctx else none
  | .boundary => some { ctx with boundary := ctx.boundary || ctx.flags.unicode }
  | .shorthand | .edge => some ctx

def readAtom? (flags : Flags) : List Char → Option (Atom × List Char)
  | [] => none
  | '\\' :: rest => readEscape? flags rest
  | '.' :: rest => some (.dot, rest)
  | '^' :: rest | '$' :: rest => some (.edge, rest)
  | c :: rest => some (.literal c.toNat false, rest)

/-- Reads the branches of a group up to its closing parenthesis or the end, and gives their depth.
Counted repetition is left out, because a field of a filter holds no closing brace. The first
argument bounds the search. -/
def readBody? : Nat → Body → Context → List Char → Option (Nat × Context × List Char)
  | 0, _, _, _ => none
  | n + 1, b, ctx, cs =>
    match ctx.flags.skip cs with
    | [] => some (b.depth, ctx, [])
    | ')' :: rest => some (b.depth, ctx, ')' :: rest)
    | '|' :: rest => readBody? n b.branch ctx rest
    | '\x7b' :: _ => none
    | '(' :: rest =>
      match readOpening? ctx rest with
      | none => none
      | some (.switches, inner, rest) => readBody? n b.addSwitches inner rest
      | some (.group, inner, rest) =>
        match readBody? n {} inner rest with
        | some (depth, inner, ')' :: rest) =>
          readBody? n (b.add (depth + 1)) { inner with flags := ctx.flags } rest
        | _ => none
    | '[' :: rest =>
      match (openBracket? ctx.flags rest).bind (readBracket? ctx.flags n {}) with
      | none => none
      | some (depth, rest) => readBody? n (b.add depth) ctx rest
    | c :: rest =>
      if c = '?' || c = '*' || c = '+' then
        match b.repeatLast? with
        | none => none
        | some b => readBody? n b ctx (if rest.head? = some '?' then rest.tail else rest)
      else
        match readAtom? ctx.flags (c :: rest) with
        | none => none
        | some (atom, rest) =>
          match ctx.admit? atom with
          | none => none
          | some ctx => readBody? n (b.add 0) ctx rest

def fault? (cs : List Char) : Option Fault :=
  match readBody? (cs.length + 1) {} {} cs with
  | some (depth, ctx, []) =>
    if depthLimit < depth then some .malformed
    else if ctx.boundary then some .wordBoundary
    else none
  | _ => some .malformed

end BucketStore.Pattern
