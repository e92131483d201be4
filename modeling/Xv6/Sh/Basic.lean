import Xv6.Core.Coroutine

/-!
# The shell parser

The recursive-descent parser of `user/sh.c`. A pointer into the command line is the part of the line
from there on, so the pointer `es` to the final zero is the empty list; the state of the parser is
the pointer `*ps`.
-/

namespace Xv6.Sh

open Core Coroutine

/-- A character string without its final zero. -/
abbrev Text := List UInt8

def MAXARGS : ℕ := 10

def O_RDONLY : ℕ := 0x000
def O_WRONLY : ℕ := 0x001
def O_CREATE : ℕ := 0x200
def O_TRUNC : ℕ := 0x400

/-- The characters of `" \t\r\n\v"`. -/
def whitespace : List UInt8 := [32, 9, 13, 10, 11]

/-- The characters of `"<|>&;()"`. -/
def symbols : List UInt8 := [60, 124, 62, 38, 59, 40, 41]

/-! ### Commands -/

/-- A redirection: `file`, `mode` and `fd` of a `struct redircmd`. -/
structure Redir (α : Type) where
  file : α
  mode : ℕ
  fd : ℕ
  deriving DecidableEq, Repr

/-- A parsed command, in which `α` stands for the strings. -/
inductive Cmd (α : Type)
  | exec (argv : List α)
  | redir (cmd : Cmd α) (r : Redir α)
  | pipe (left right : Cmd α)
  | list (left right : Cmd α)
  | back (cmd : Cmd α)
  deriving DecidableEq, Repr

/-- A string in the command line, by the pointers to its first character and behind its last one. -/
structure Word where
  q : Text
  eq : Text
  deriving DecidableEq, Repr

/-- Redirections around a command, the first one innermost. -/
def wrap {α : Type} (cmd : Cmd α) (rs : List (Redir α)) : Cmd α := rs.foldl .redir cmd

/-! ### Tokens -/

/-- How the parser ends when it does not return. -/
inductive Panic
  /-- `"leftovers: %s\n"` and `"syntax"` -/
  | leftovers
  /-- `"missing file for redirection"` -/
  | missingFile
  /-- `"parseblock"` -/
  | parseblock
  /-- `"syntax - missing )"` -/
  | missingParen
  /-- `"syntax"` -/
  | syntaxError
  /-- `"too many args"` -/
  | tooManyArgs
  /-- The array `argv` is written at `MAXARGS` or beyond. -/
  | argvIndex
  /-- A recursion or a loop that goes on for longer than the line. -/
  | endless
  deriving DecidableEq, Repr

/-- Code that moves the pointer `*ps`. -/
abbrev ParseM := Coroutine Text Panic Empty

/-- Neither whitespace nor a symbol. -/
def ordinary (c : UInt8) : Bool := !whitespace.contains c && !symbols.contains c

/-- `while(s < es && strchr(whitespace, *s)) s++;` -/
def skip (s : Text) : Text := s.dropWhile whitespace.contains

/-- `peek(ps, es, toks)` -/
def peek (toks : List UInt8) : ParseM Bool := do
  modify skip
  match ← get with
  | [] => return false
  | c :: _ => return toks.contains c

/-- `gettoken(ps, es, &q, &eq)`: the kind of the next token, which is 0 at the end of the line, and
its place. -/
def gettoken : ParseM (UInt8 × Word) := do
  modify skip
  let q ← get
  match q with
  | [] => return (0, ⟨q, q⟩)
  | c :: s =>
    if c = 124 ∨ c = 40 ∨ c = 41 ∨ c = 59 ∨ c = 38 ∨ c = 60 then
      set (skip s)
      return (c, ⟨q, s⟩)
    else if c = 62 then
      if s.head? = some 62 then
        -- `>>` is reported as `+`
        set (skip s.tail)
        return (43, ⟨q, s.tail⟩)
      else
        set (skip s)
        return (c, ⟨q, s⟩)
    else
      let eq := q.dropWhile ordinary
      set (skip eq)
      return (97, ⟨q, eq⟩)

/-! ### Parsing -/

/-- The redirection for a token. -/
def redirOf {α : Type} (tok : UInt8) (file : α) : Redir α :=
  if tok = 60 then ⟨file, O_RDONLY, 0⟩
  else if tok = 62 then ⟨file, O_WRONLY ||| O_CREATE ||| O_TRUNC, 1⟩
  else ⟨file, O_WRONLY ||| O_CREATE, 1⟩

/-- The loop of `parseredirs`: the redirections in the order in which they are put around the
command. -/
def parseredirs : ℕ → ParseM (List (Redir Word))
  | 0 => .fail .endless
  | fuel + 1 => do
    if ← peek [60, 62] then
      let (tok, _) ← gettoken
      let (tok', file) ← gettoken
      if tok' ≠ 97 then
        .fail .missingFile
      else
        let rs ← parseredirs fuel
        return redirOf tok file :: rs
    else
      return []

/-- The loop of `parseexec`, with the words and the redirections that were read before. -/
def parseargs : ℕ → List Word → List (Redir Word) → ParseM (List Word × List (Redir Word))
  | 0, _, _ => .fail .endless
  | fuel + 1, argv, rs => do
    -- `"|)&;"`
    if ← peek [124, 41, 38, 59] then
      return (argv, rs)
    else
      let (tok, w) ← gettoken
      if tok = 0 then
        return (argv, rs)
      else if tok ≠ 97 then
        .fail .syntaxError
      else if MAXARGS ≤ argv.length then
        .fail .argvIndex
      else if MAXARGS ≤ argv.length + 1 then
        .fail .tooManyArgs
      else
        let rs' ← parseredirs fuel
        parseargs fuel (argv ++ [w]) (rs ++ rs')

/-- The loop over `&` in `parseline`. -/
def parsebacks : ℕ → Cmd Word → ParseM (Cmd Word)
  | 0, _ => .fail .endless
  | fuel + 1, cmd => do
    if ← peek [38] then
      let _ ← gettoken
      parsebacks fuel (.back cmd)
    else
      return cmd

mutual

def parseline : ℕ → ParseM (Cmd Word)
  | 0 => .fail .endless
  | fuel + 1 => do
    let cmd ← parsepipe fuel
    let cmd ← parsebacks fuel cmd
    if ← peek [59] then
      let _ ← gettoken
      let right ← parseline fuel
      return .list cmd right
    else
      return cmd

def parsepipe : ℕ → ParseM (Cmd Word)
  | 0 => .fail .endless
  | fuel + 1 => do
    let cmd ← parseexec fuel
    if ← peek [124] then
      let _ ← gettoken
      let right ← parsepipe fuel
      return .pipe cmd right
    else
      return cmd

def parseblock : ℕ → ParseM (Cmd Word)
  | 0 => .fail .endless
  | fuel + 1 => do
    if ← peek [40] then
      let _ ← gettoken
      let cmd ← parseline fuel
      if ← peek [41] then
        let _ ← gettoken
        let rs ← parseredirs fuel
        return wrap cmd rs
      else
        .fail .missingParen
    else
      .fail .parseblock

def parseexec : ℕ → ParseM (Cmd Word)
  | 0 => .fail .endless
  | fuel + 1 => do
    if ← peek [40] then
      parseblock fuel
    else
      let rs ← parseredirs fuel
      let (argv, rs) ← parseargs fuel [] rs
      if MAXARGS ≤ argv.length then
        .fail .argvIndex
      else
        return wrap (.exec argv) rs

end

/-- Put a zero behind a word of the line `buf`, which is `n` characters long. -/
def terminate (n : ℕ) (buf : Text) (w : Word) : Text := buf.set (n - w.eq.length) 0

/-- NUL-terminate all the counted strings. -/
def nulterminate (n : ℕ) : Cmd Word → Text → Text
  | .exec argv, buf => argv.foldl (terminate n) buf
  | .redir cmd r, buf => terminate n (nulterminate n cmd buf) r.file
  | .pipe left right, buf => nulterminate n right (nulterminate n left buf)
  | .list left right, buf => nulterminate n right (nulterminate n left buf)
  | .back cmd, buf => nulterminate n cmd buf

/-- `parsecmd` of a line: the command and what the line is turned into. -/
def parsecmd (line : Text) : ParseM (Cmd Word × Text) := do
  let cmd ← parseline (4 * line.length + 4)
  let _ ← peek []
  if (← get) ≠ [] then
    .fail .leftovers
  else
    return (cmd, nulterminate line.length cmd line)

/-- The string that a word points to in the line `buf`, which is `n` characters long. -/
def string (n : ℕ) (buf : Text) (w : Word) : Text := (buf.drop (n - w.q.length)).takeWhile (· ≠ 0)

end Xv6.Sh
