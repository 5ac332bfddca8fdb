import Xinu.Kernel.State

/-!
# The lexical analyzer of the shell

`lexan` divides a command line into tokens: quoted strings, single special characters, and runs of
other characters. It copies them into a buffer, each with a NUL behind it, and notes where they
begin. A line that ends inside a quoted string is an error; but the test for the closing quote is
also made of the character behind the line.

## Main results

* `lexan_agrees_iff`: when the result depends on the line alone
-/

namespace Xinu.Shell

open List

/-- Maximum number of tokens per line. -/
def SHELL_MAXTOK : Nat := 16

/-! ## The program -/

/-- NUL, carriage return and newline. -/
def isEndOfLine (c : UInt8) : Bool := c == 0 || c == 13 || c == 10

/-- The double and the single quote. -/
def isQuote (c : UInt8) : Bool := c == 34 || c == 39

/-- The characters `<`, `>` and `&`. -/
def isOtherSpecial (c : UInt8) : Bool := c == 60 || c == 62 || c == 38

/-- Blank and tabulator. -/
def isWhitespace (c : UInt8) : Bool := c == 32 || c == 9

/-- What the loop over a quoted string copies. -/
def inString (quote c : UInt8) : Bool := quote != c && !isEndOfLine c

/-- What the loop over a standard token copies. -/
def isStandard (c : UInt8) : Bool :=
  !isEndOfLine c && !isQuote c && !isOtherSpecial c && !isWhitespace c

/-- What has been written: the characters in front of `tokbuf`, and the places in `tok`. -/
structure Tokens where
  tokbuf : List UInt8
  tok : List Nat
deriving DecidableEq

/-- `tok[ntok] = tokbuf`. -/
def Tokens.start (t : Tokens) : Tokens := { t with tok := t.tok ++ [t.tokbuf.length] }

/-- `*tokbuf++ = c`, for one character after the other. -/
def Tokens.put (t : Tokens) (cs : List UInt8) : Tokens := { t with tokbuf := t.tokbuf ++ cs }

/-- The loop of `lexan` for up to `n` further tokens, where `rest` is left of the line, with the
character `behind` behind it. -/
def lexLoop (behind : UInt8) : Nat → List UInt8 → Tokens → Tokens × Int
  | 0, _, t => (t, t.tok.length)
  | n + 1, rest, t =>
    -- skip whitespace in line of input
    match rest.dropWhile isWhitespace with
    | [] => (t, t.tok.length)
    | c :: rest =>
      if isEndOfLine c then (t, t.tok.length)
      else
        let t := t.start
        if isQuote c then
          let t := t.put (c :: rest.takeWhile (inString c))
          match rest.dropWhile (inString c) with
          -- the loop has reached the end of the line, where the test reads the next character
          | [] => if c = behind then lexLoop behind n [] (t.put [behind, 0]) else (t, SYSERR)
          | d :: rest => if c = d then lexLoop behind n rest (t.put [d, 0]) else (t, SYSERR)
        else if isOtherSpecial c then lexLoop behind n rest (t.put [c, 0])
        else
          let t := t.put (c :: rest.takeWhile isStandard)
          match rest.dropWhile isStandard with
          | [] => (t, SYSERR)
          | d :: rest => lexLoop behind n (d :: rest) (t.put [0])

/-- `lexan` on the `linelen` characters from `line` on. -/
def lexan (line : Nat → UInt8) (linelen : Nat) : Tokens × Int :=
  lexLoop (line linelen) SHELL_MAXTOK ((range linelen).map line) ⟨[], []⟩

/-! ## What the result depends on -/

/-- One of the first `n` tokens is a quoted string with neither a closing quote nor an end-of-line
character up to the end of the text. -/
def LeftOpen : Nat → List UInt8 → Prop
  | 0, _ => False
  | n + 1, text =>
    match text.dropWhile isWhitespace with
    | [] => False
    | c :: rest =>
      if isEndOfLine c then False
      else if isQuote c then
        match rest.dropWhile (inString c) with
        | [] => True
        | d :: rest => c = d ∧ LeftOpen n rest
      else if isOtherSpecial c then LeftOpen n rest
      else LeftOpen n (rest.dropWhile isStandard)

theorem lexLoop_agree_iff (n : Nat) (text : List UInt8) (t : Tokens) :
    (∀ b b', lexLoop b n text t = lexLoop b' n text t) ↔ ¬ LeftOpen n text := by
  induction n generalizing text t with
  | zero => simp [lexLoop, LeftOpen]
  | succ n ih =>
    unfold lexLoop LeftOpen
    cases text.dropWhile isWhitespace with
    | nil => simp
    | cons c rest =>
      dsimp only
      by_cases heol : isEndOfLine c = true
      · simp [heol]
      by_cases hquote : isQuote c = true
      · simp only [heol, hquote, if_true]
        cases rest.dropWhile (inString c) with
        | nil =>
          -- the closing quote stands behind the line, or another character does
          have hne : c ≠ c + 1 := by simp
          refine iff_of_false (fun h => ?_) (by simp)
          have hlen := congrArg Prod.snd (h c (c + 1))
          cases n <;> simp [lexLoop, hne, SYSERR] at hlen
        | cons d rest =>
          by_cases hd : c = d
          · simpa [hd] using ih rest _
          · simp [hd]
      · by_cases hspecial : isOtherSpecial c = true
        · simpa [heol, hquote, hspecial] using ih rest _
        · simp only [heol, hquote, hspecial]
          cases rest.dropWhile isStandard with
          | nil => cases n <;> simp [LeftOpen]
          | cons d rest => exact ih _ _

/-- **The result depends on the line alone** exactly if the line leaves no quoted string among its
tokens open. -/
theorem lexan_agrees_iff (line : Nat → UInt8) (linelen : Nat) :
    (∀ line', (∀ i < linelen, line' i = line i) → lexan line' linelen = lexan line linelen) ↔
      ¬ LeftOpen SHELL_MAXTOK ((range linelen).map line) := by
  have hmap : ∀ line', (∀ i < linelen, line' i = line i) →
      (range linelen).map line' = (range linelen).map line :=
    fun line' h => map_congr_left fun i hi => h i (mem_range.mp hi)
  rw [← lexLoop_agree_iff _ _ ⟨[], []⟩]
  constructor
  · intro h b b'
    have hb : ∀ b, lexLoop b SHELL_MAXTOK ((range linelen).map line) ⟨[], []⟩ =
        lexan line linelen := by
      intro b
      have hlow : ∀ i < linelen, store line linelen b i = line i :=
        fun i hi => if_neg (Nat.ne_of_lt hi)
      rw [← h _ hlow, lexan, hmap _ hlow, store, if_pos rfl]
    rw [hb, hb]
  · intro h line' hl
    rw [lexan, lexan, hmap line' hl]
    exact h _ _

/-- The line `"a`, with another quote and with a blank behind it. -/
theorem lexan_reads_on :
    lexan (fun i => if i = 1 then 97 else 34) 2 = (⟨[34, 97, 34, 0], [0]⟩, 1) ∧
    lexan (fun i => if i = 0 then 34 else if i = 1 then 97 else 32) 2 =
      (⟨[34, 97], [0]⟩, SYSERR) := by
  decide

end Xinu.Shell
