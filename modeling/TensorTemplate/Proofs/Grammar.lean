import TensorTemplate.Printer
import TensorTemplate.Proofs.Names
import Mathlib.Data.List.SplitBy

/-!
How the target languages read an expression.

A text is cut into tokens, the longest runs of characters that belong together, and
the tokens are read by the operator grammar: sums and differences from left to
right, products from left to right, signs, powers, and then names, numerals, calls
and whatever stands in parentheses. A power is a call of `std::pow` in one language
and the operator `**` in the other.

The grammar gives each list of tokens one reading at most. This is shown by a reader
that keeps the operators whose right operand is not complete on a stack: along every
derivation it reads what the derivation says.
-/

namespace TensorTemplate.Grammar

/-! ### Tokens -/

/-- A character of a name, a numeral or a qualified name. -/
def isWordChar (c : Char) : Bool := isIdentChar c || c == ':'

/-- Whether two characters that follow each other are part of one token. -/
def sticks (c d : Char) : Bool :=
  (isWordChar c && isWordChar d) || (c == d && (c == '*' || c == '-'))

/-- The tokens of a text; blanks only separate them. -/
def tokens (text : String) : List String :=
  ((text.toList.splitBy sticks).filter (· ≠ [' '])).map String.ofList

/-- Where two texts meet, no token goes on. -/
def Apart (s t : String) : Prop :=
  ∀ c ∈ s.toList.getLast?, ∀ d ∈ t.toList.head?, sticks c d = false

theorem tokens_append {s t : String} (h : Apart s t) : tokens (s ++ t) = tokens s ++ tokens t := by
  unfold tokens
  rw [String.toList_append, List.splitBy_append h, List.filter_append, List.map_append]

/-- A run of characters that belong together is one token. -/
theorem tokens_of_isChain {s : String} (hne : s ≠ "") (hblank : s ≠ " ")
    (h : s.toList.IsChain fun c d => sticks c d) : tokens s = [s] := by
  have hlist : s.toList ≠ [] := by simpa using hne
  have hchars : s.toList ≠ [' '] := by
    intro heq
    exact hblank (String.toList_injective heq)
  unfold tokens
  rw [List.splitBy_of_isChain hlist h]
  simp [hchars]

/-- A word is one token. -/
theorem tokens_word {s : String} (hne : s ≠ "") (h : ∀ c ∈ s.toList, isWordChar c = true) :
    tokens s = [s] := by
  refine tokens_of_isChain hne ?_ ?_
  · rintro rfl
    exact absurd (h ' ' (by simp)) (by decide)
  · apply List.Pairwise.isChain
    apply List.pairwise_of_forall_mem_list
    intro c hc d hd
    simp [sticks, h c hc, h d hd]

/-! ### The grammar -/

/-- A text as it is read. -/
inductive Term where
  | num (n : Nat)
  | name (x : String)
  | neg (t : Term)
  | add (left right : Term)
  | sub (left right : Term)
  | mul (left right : Term)
  | pow (base exponent : Term)
  | call (f : String) (args : List Term)

/-- The tokens read as the term, at a place that asks for this binding strength. -/
inductive Reads (b : Backend) : Precedence → List String → Term → Prop where
  | num (n : Nat) : Reads b .atom [n.repr] (.num n)
  | name {x : String} (hx : isIdentifier x = true) : Reads b .atom [x] (.name x)
  | group {ts : List String} {t : Term} (h : Reads b .sum ts t) :
      Reads b .atom ("(" :: ts ++ [")"]) t
  | call {f : String} {parts : List (List String × Term)} (hf : isIdentifier f = true)
      (h : ∀ part ∈ parts, Reads b .sum part.1 part.2) :
      Reads b .atom (f :: "(" :: [","].intercalate (parts.map (·.1)) ++ [")"])
        (.call f (parts.map (·.2)))
  | powCall {ts us : List String} {t u : Term} (hb : b = .cpp) (ht : Reads b .sum ts t)
      (hu : Reads b .sum us u) :
      Reads b .atom ("std::pow" :: "(" :: ts ++ "," :: us ++ [")"]) (.pow t u)
  | powOp {ts us : List String} {t u : Term} (hb : b = .python) (ht : Reads b .atom ts t)
      (hu : Reads b .unary us u) : Reads b .power (ts ++ "**" :: us) (.pow t u)
  | ofAtom {ts : List String} {t : Term} (h : Reads b .atom ts t) : Reads b .power ts t
  | neg {ts : List String} {t : Term} (h : Reads b .unary ts t) :
      Reads b .unary ("-" :: ts) (.neg t)
  | ofPower {ts : List String} {t : Term} (h : Reads b .power ts t) : Reads b .unary ts t
  | mul {ts us : List String} {t u : Term} (ht : Reads b .product ts t) (hu : Reads b .unary us u) :
      Reads b .product (ts ++ "*" :: us) (.mul t u)
  | ofUnary {ts : List String} {t : Term} (h : Reads b .unary ts t) : Reads b .product ts t
  | add {ts us : List String} {t u : Term} (ht : Reads b .sum ts t) (hu : Reads b .product us u) :
      Reads b .sum (ts ++ "+" :: us) (.add t u)
  | sub {ts us : List String} {t u : Term} (ht : Reads b .sum ts t) (hu : Reads b .product us u) :
      Reads b .sum (ts ++ "-" :: us) (.sub t u)
  | ofProduct {ts : List String} {t : Term} (h : Reads b .product ts t) : Reads b .sum ts t

/-! ### One reading -/

/-- What an operand that is being read is part of. -/
inductive Context where
  | add (left : Term)
  | sub (left : Term)
  | mul (left : Term)
  | neg
  | pow (base : Term)
  | group
  /-- The arguments of a call, with those that are complete. -/
  | args (f : String) (done : List Term)

namespace Context

/-- The strength of the operator, if the context is one. -/
def level? : Context → Option Precedence
  | add _ | sub _ => some .sum
  | mul _ => some .product
  | neg => some .unary
  | pow _ => some .power
  | group | args _ _ => none

/-- Whether an operator of strength `q` after the operand ends the context. -/
def yields (q : Precedence) (c : Context) : Bool :=
  match c.level? with
  | some p => q.rank ≤ p.rank
  | none => false

/-- What is read once the operand is. -/
def close : Context → Term → Term
  | add left, t => .add left t
  | sub left, t => .sub left t
  | mul left, t => .mul left t
  | neg, t => .neg t
  | pow base, t => .pow base t
  | group, t => t
  | args _ _, t => t

end Context

/-- The contexts that are left, and the term, once an operator of strength `q` comes. -/
def settle (q : Precedence) : List Context → Term → List Context × Term
  | [], t => ([], t)
  | c :: cs, t => if c.yields q then settle q cs (c.close t) else (c :: cs, t)

/-- What a token ends of the operands before it. -/
def settleAt (w : String) (cs : List Context) (t : Term) : List Context × Term :=
  if w = "**" ∨ w = "(" then (cs, t)
  else if w = "*" then settle .product cs t
  else settle .sum cs t

/-- A word that is no operator. -/
def wordTerm (w : String) : Term :=
  if w.toList.all Char.isDigit then .num (Nat.ofDigitChars 10 w.toList 0) else .name w

def callTerm (f : String) (args : List Term) : Term :=
  match args with
  | [t, u] => if f = "std::pow" then .pow t u else .call f args
  | _ => .call f args

/-- What a reader has read: what it is in the middle of, and the operand just read, if one was. -/
structure Reader where
  contexts : List Context
  operand : Option Term

namespace Reader

/-- A token where an operand is due. -/
def start (cs : List Context) (w : String) : Option Reader :=
  if w = "-" then some ⟨.neg :: cs, none⟩
  else if w = "(" then some ⟨.group :: cs, none⟩
  else if w = ")" then
    match cs with
    | .args f [] :: cs => some ⟨cs, some (callTerm f [])⟩
    | _ => none
  else some ⟨cs, some (wordTerm w)⟩

/-- A token after an operand, when everything it ends has been ended. -/
def shift (cs : List Context) (t : Term) (w : String) : Option Reader :=
  if w = "+" then some ⟨.add t :: cs, none⟩
  else if w = "-" then some ⟨.sub t :: cs, none⟩
  else if w = "*" then some ⟨.mul t :: cs, none⟩
  else if w = "**" then some ⟨.pow t :: cs, none⟩
  else if w = "(" then
    match t with
    | .name f => some ⟨.args f [] :: cs, none⟩
    | _ => none
  else if w = ")" then
    match cs with
    | .group :: cs => some ⟨cs, some t⟩
    | .args f done :: cs => some ⟨cs, some (callTerm f (done ++ [t]))⟩
    | _ => none
  else if w = "," then
    match cs with
    | .args f done :: cs => some ⟨.args f (done ++ [t]) :: cs, none⟩
    | _ => none
  else none

def step (r : Reader) (w : String) : Option Reader :=
  match r.operand with
  | none => start r.contexts w
  | some t => shift (settleAt w r.contexts t).1 (settleAt w r.contexts t).2 w

/-- What has been read when the tokens end. -/
def finish (r : Reader) : Option Term :=
  match r.operand with
  | none => none
  | some t =>
    match settle .sum r.contexts t with
    | ([], t) => some t
    | _ => none

/-- The reading of the tokens that are left. -/
def read : List String → Reader → Option Term
  | [], r => r.finish
  | w :: ts, r => (r.step w).bind (read ts)

end Reader

/-- What can follow a part of the given strength without going on with it. -/
def Follows (p : Precedence) (rest : List String) : Prop :=
  ∀ w ∈ rest.head?, w ≠ "(" ∧ (w = "**" → p = .atom) ∧ (w = "*" → p ≠ .sum)

/-- What a part of the given strength can stand in without being cut short. -/
def Clear (p : Precedence) (cs : List Context) : Prop :=
  ∀ c ∈ cs.head?, p.rank ≤ Precedence.product.rank → c.yields p = false

theorem Follows.mono {p q : Precedence} {rest : List String} (hpq : p.rank ≤ q.rank)
    (h : Follows p rest) : Follows q rest := by
  intro w hw
  obtain ⟨hopen, hpower, hstar⟩ := h w hw
  refine ⟨hopen, ?_, ?_⟩
  · rintro hw
    cases hpower hw
    revert hpq
    cases q <;> decide
  · rintro hw rfl
    apply hstar hw
    revert hpq
    cases p <;> decide

theorem Clear.mono {p q : Precedence} {cs : List Context} (hpq : p.rank ≤ q.rank)
    (h : Clear p cs) : Clear q cs := by
  intro c hc hq
  have hp := h c hc (Nat.le_trans hpq hq)
  unfold Context.yields at hp ⊢
  cases hlevel : c.level? with
  | none => rfl
  | some l =>
      simp only [hlevel, decide_eq_false_iff_not, not_le] at hp ⊢
      omega

/-- Inside an operator, a part can be of any greater strength. -/
theorem clear_cons {p q : Precedence} {c : Context} (hc : c.level? = some q)
    (hpq : q.rank < p.rank) (cs : List Context) : Clear p (c :: cs) := by
  intro d hd _
  cases hd
  simp only [Context.yields, hc, decide_eq_false_iff_not, not_le]
  exact hpq

/-- Inside parentheses, a part can be of any strength. -/
theorem clear_cons_of_none {c : Context} (hc : c.level? = none) (p : Precedence)
    (cs : List Context) : Clear p (c :: cs) := by
  intro d hd _
  cases hd
  simp [Context.yields, hc]

theorem settle_eq_self {p : Precedence} {cs : List Context} (hp : p.rank ≤ Precedence.product.rank)
    (h : Clear p cs) (t : Term) : settle p cs t = (cs, t) := by
  cases cs with
  | nil => rfl
  | cons c cs => rw [settle, h c rfl hp]; rfl

theorem settle_cons {q l : Precedence} {c : Context} (hc : c.level? = some l) (hq : q.rank ≤ l.rank)
    (cs : List Context) (t : Term) : settle q (c :: cs) t = settle q cs (c.close t) := by
  rw [settle, if_pos]
  simpa [Context.yields, hc] using hq

/-- When an operator is over, it counts as an operand of what is around it. -/
theorem read_close {p : Precedence} {c : Context} (hc : c.level? = some p) {rest : List String}
    (h : Follows p rest) (cs : List Context) (t : Term) :
    Reader.read rest ⟨c :: cs, some t⟩ = Reader.read rest ⟨cs, some (c.close t)⟩ := by
  have hsum : Precedence.sum.rank ≤ p.rank := Nat.zero_le _
  cases rest with
  | nil => simp [Reader.read, Reader.finish, settle_cons hc hsum]
  | cons w ts =>
      obtain ⟨hopen, hpower, hstar⟩ := h w rfl
      have hpower' : w ≠ "**" := by
        intro hw
        rw [hpower hw] at hc
        cases c <;> cases hc
      have hsettle : settleAt w (c :: cs) t = settleAt w cs (c.close t) := by
        have hneither : ¬(w = "**" ∨ w = "(") := by tauto
        simp only [settleAt, if_neg hneither]
        split
        · rename_i hw
          refine settle_cons hc ?_ cs t
          have hne := hstar hw
          revert hne
          cases p <;> decide
        · exact settle_cons hc hsum cs t
      simp [Reader.read, Reader.step, hsettle]

theorem follows_cons {p : Precedence} {w : String} (hopen : w ≠ "(") (hpower : w ≠ "**")
    (hstar : w ≠ "*" ∨ p ≠ .sum) (ts : List String) : Follows p (w :: ts) := by
  intro v hv
  cases hv
  exact ⟨hopen, fun h => absurd h hpower, fun h => hstar.resolve_left (not_not.2 h)⟩

theorem follows_atom {w : String} (hopen : w ≠ "(") (ts : List String) :
    Follows .atom (w :: ts) := by
  intro v hv
  cases hv
  exact ⟨hopen, fun _ => rfl, fun _ => by decide⟩

theorem Follows.of_power {rest : List String} (h : Follows .power rest) : Follows .unary rest := by
  intro w hw
  obtain ⟨hopen, hpower, _⟩ := h w hw
  exact ⟨hopen, fun heq => absurd (hpower heq) (by decide), fun _ => by decide⟩

/-- Signs, powers and operands can stand anywhere. -/
theorem clear_of_lt {p : Precedence} (hp : Precedence.product.rank < p.rank) (cs : List Context) :
    Clear p cs :=
  fun _ _ hle => absurd hle (Nat.not_le.2 hp)

section Steps

variable (cs : List Context) (t : Term) (f : String) (done : List Term) (ts : List String)

attribute [local simp] Reader.read Reader.step Reader.start Reader.shift settleAt

theorem read_sign : Reader.read ("-" :: ts) ⟨cs, none⟩ = Reader.read ts ⟨.neg :: cs, none⟩ := by
  simp

theorem read_open : Reader.read ("(" :: ts) ⟨cs, none⟩ = Reader.read ts ⟨.group :: cs, none⟩ := by
  simp

theorem read_callOpen :
    Reader.read ("(" :: ts) ⟨cs, some (.name f)⟩ = Reader.read ts ⟨.args f [] :: cs, none⟩ := by
  simp

theorem read_callEmpty :
    Reader.read (")" :: ts) ⟨.args f [] :: cs, none⟩ =
      Reader.read ts ⟨cs, some (callTerm f [])⟩ := by
  simp

theorem read_groupClose :
    Reader.read (")" :: ts) ⟨.group :: cs, some t⟩ = Reader.read ts ⟨cs, some t⟩ := by
  simp [settle, Context.yields, Context.level?]

theorem read_callClose :
    Reader.read (")" :: ts) ⟨.args f done :: cs, some t⟩ =
      Reader.read ts ⟨cs, some (callTerm f (done ++ [t]))⟩ := by
  simp [settle, Context.yields, Context.level?]

theorem read_comma :
    Reader.read ("," :: ts) ⟨.args f done :: cs, some t⟩ =
      Reader.read ts ⟨.args f (done ++ [t]) :: cs, none⟩ := by
  simp [settle, Context.yields, Context.level?]

theorem read_pow :
    Reader.read ("**" :: ts) ⟨cs, some t⟩ = Reader.read ts ⟨.pow t :: cs, none⟩ := by
  simp

variable {cs}

theorem read_mul (h : Clear .product cs) :
    Reader.read ("*" :: ts) ⟨cs, some t⟩ = Reader.read ts ⟨.mul t :: cs, none⟩ := by
  simp [settle_eq_self (by decide) h]

theorem read_add (h : Clear .sum cs) :
    Reader.read ("+" :: ts) ⟨cs, some t⟩ = Reader.read ts ⟨.add t :: cs, none⟩ := by
  simp [settle_eq_self (by decide) h]

theorem read_sub (h : Clear .sum cs) :
    Reader.read ("-" :: ts) ⟨cs, some t⟩ = Reader.read ts ⟨.sub t :: cs, none⟩ := by
  simp [settle_eq_self (by decide) h]

end Steps

/-- A text of word characters, and at least one of them. -/
def IsWord (w : String) : Prop := w ≠ "" ∧ ∀ c ∈ w.toList, isWordChar c = true

theorem isWord_of_isIdentifier {x : String} (hx : isIdentifier x = true) : IsWord x := by
  refine ⟨?_, ?_⟩
  · rintro rfl
    cases hx
  · intro c hc
    simp [isWordChar, isIdentChar_of_mem_identifier hx hc]

theorem isWord_repr (n : Nat) : IsWord n.repr := by
  refine ⟨Nat.repr_ne_empty, ?_⟩
  intro c hc
  simp [isWordChar, isIdentChar_of_isDigit (isDigit_of_mem_repr hc)]

theorem isWord_pow : IsWord "std::pow" := ⟨by decide, List.all_eq_true.1 (by decide)⟩

theorem read_word {w : String} (hw : IsWord w) (cs : List Context) (ts : List String) :
    Reader.read (w :: ts) ⟨cs, none⟩ = Reader.read ts ⟨cs, some (wordTerm w)⟩ := by
  have hne : ∀ c : Char, isWordChar c = false → w ≠ String.singleton c := by
    rintro c hc rfl
    exact absurd (hw.2 c (by simp)) (by simp [hc])
  have hminus : w ≠ "-" := hne '-' (by decide)
  have hopen : w ≠ "(" := hne '(' (by decide)
  have hclose : w ≠ ")" := hne ')' (by decide)
  simp [Reader.read, Reader.step, Reader.start, hminus, hopen, hclose]

theorem wordTerm_repr (n : Nat) : wordTerm n.repr = .num n := by
  have hall : n.repr.toList.all Char.isDigit = true := by
    rw [List.all_eq_true]
    intro c hc
    exact isDigit_of_mem_repr hc
  rw [wordTerm, if_pos hall, Nat.toList_repr, Nat.ofDigitChars_ten_toDigits]

theorem wordTerm_identifier {x : String} (hx : isIdentifier x = true) : wordTerm x = .name x := by
  obtain ⟨c, cs, heq, hc, _⟩ := isIdentifier_iff.1 hx
  have hdigit : c.isDigit = false := by
    by_contra hdigit
    rw [isIdentStart_eq_false_of_isDigit (by simpa using hdigit)] at hc
    cases hc
  simp [wordTerm, heq, hdigit]

theorem callTerm_identifier {f : String} (hf : isIdentifier f = true) (args : List Term) :
    callTerm f args = .call f args := by
  have hne : f ≠ "std::pow" := by
    rintro rfl
    exact absurd hf (by decide)
  unfold callTerm
  split
  · rw [if_neg hne]
  · rfl

/-- The reader reads an argument list if it reads each argument. -/
theorem read_args {parts : List (List String × Term)} (hne : parts ≠ [])
    (hparts : ∀ part ∈ parts, ∀ cs rest, Clear .sum cs → Follows .sum rest →
      Reader.read (part.1 ++ rest) ⟨cs, none⟩ = Reader.read rest ⟨cs, some part.2⟩)
    (f : String) (done : List Term) (cs : List Context) (rest : List String) :
    Reader.read ([","].intercalate (parts.map (·.1)) ++ ")" :: rest) ⟨.args f done :: cs, none⟩ =
      Reader.read rest ⟨cs, some (callTerm f (done ++ parts.map (·.2)))⟩ := by
  have hclear : Clear .sum (.args f done :: cs) := clear_cons_of_none rfl _ _
  induction parts generalizing done with
  | nil => exact absurd rfl hne
  | cons part parts ih =>
      have hfirst := hparts part List.mem_cons_self (.args f done :: cs)
      cases parts with
      | nil =>
          have hread := hfirst (")" :: rest) hclear
            (follows_cons (by decide) (by decide) (by decide) _)
          rw [read_callClose] at hread
          simpa using hread
      | cons next parts =>
          have hread := hfirst
            ("," :: [","].intercalate ((next :: parts).map (·.1)) ++ ")" :: rest) hclear
            (follows_cons (by decide) (by decide) (by decide) _)
          rw [List.cons_append, read_comma, ih (List.cons_ne_nil _ _)
            (fun part hpart => hparts part (List.mem_cons_of_mem _ hpart)) (done ++ [part.2])
            (clear_cons_of_none rfl _ _)] at hread
          simpa using hread

/-- The reader reads what a derivation says, wherever the derived part can stand. -/
theorem Reads.read_append {b : Backend} {p : Precedence} {ts : List String} {t : Term}
    (h : Reads b p ts t) (cs : List Context) (rest : List String) (hclear : Clear p cs)
    (hfollows : Follows p rest) :
    Reader.read (ts ++ rest) ⟨cs, none⟩ = Reader.read rest ⟨cs, some t⟩ := by
  induction h generalizing cs rest with
  | num n => rw [List.singleton_append, read_word (isWord_repr n), wordTerm_repr]
  | name hx =>
      rw [List.singleton_append, read_word (isWord_of_isIdentifier hx), wordTerm_identifier hx]
  | @group ts t h ih =>
      have hinner := ih (.group :: cs) (")" :: rest) (clear_cons_of_none rfl _ _)
        (follows_cons (by decide) (by decide) (by decide) _)
      rw [read_groupClose] at hinner
      simpa [read_open] using hinner
  | @call f parts hf h ih =>
      simp only [List.cons_append, List.append_assoc, read_word (isWord_of_isIdentifier hf),
        wordTerm_identifier hf, read_callOpen]
      cases parts with
      | nil => simp [read_callEmpty, callTerm_identifier hf]
      | cons part parts =>
          have hargs := read_args (List.cons_ne_nil part parts) ih f [] cs rest
          rw [callTerm_identifier hf] at hargs
          exact hargs
  | @powCall ts us t u hb ht hu iht ihu =>
      have hargs := read_args (List.cons_ne_nil (ts, t) [(us, u)]) (by
        intro part hpart
        rcases List.mem_pair.1 hpart with rfl | rfl
        · exact iht
        · exact ihu) "std::pow" [] cs rest
      have hword : wordTerm "std::pow" = .name "std::pow" := rfl
      simp only [List.cons_append, List.append_assoc, read_word isWord_pow, hword, read_callOpen]
      simpa [callTerm] using hargs
  | @powOp ts us t u hb ht hu iht ihu =>
      have hbase := iht cs ("**" :: us ++ rest) (clear_of_lt (by decide) cs)
        (follows_atom (by decide) _)
      have hexponent := ihu (.pow t :: cs) rest (clear_of_lt (by decide) _) hfollows.of_power
      rw [read_close rfl hfollows] at hexponent
      rw [List.append_assoc, hbase, List.cons_append, read_pow]
      exact hexponent
  | ofAtom h ih => exact ih cs rest (hclear.mono (by decide)) (hfollows.mono (by decide))
  | neg h ih =>
      have hinner := ih (.neg :: cs) rest (clear_of_lt (by decide) _) hfollows
      rw [read_close rfl hfollows] at hinner
      rw [List.cons_append, read_sign]
      exact hinner
  | ofPower h ih => exact ih cs rest (hclear.mono (by decide)) (hfollows.mono (by decide))
  | @mul ts us t u ht hu iht ihu =>
      have hleft := iht cs ("*" :: us ++ rest) hclear
        (follows_cons (by decide) (by decide) (by decide) _)
      have hright := ihu (.mul t :: cs) rest (clear_cons rfl (by decide) cs)
        (hfollows.mono (by decide))
      rw [read_close rfl hfollows] at hright
      rw [List.append_assoc, hleft, List.cons_append, read_mul _ _ hclear]
      exact hright
  | ofUnary h ih => exact ih cs rest (hclear.mono (by decide)) (hfollows.mono (by decide))
  | @add ts us t u ht hu iht ihu =>
      have hleft := iht cs ("+" :: us ++ rest) hclear
        (follows_cons (by decide) (by decide) (by decide) _)
      have hright := ihu (.add t :: cs) rest (clear_cons rfl (by decide) cs)
        (hfollows.mono (by decide))
      rw [read_close rfl hfollows] at hright
      rw [List.append_assoc, hleft, List.cons_append, read_add _ _ hclear]
      exact hright
  | @sub ts us t u ht hu iht ihu =>
      have hleft := iht cs ("-" :: us ++ rest) hclear
        (follows_cons (by decide) (by decide) (by decide) _)
      have hright := ihu (.sub t :: cs) rest (clear_cons rfl (by decide) cs)
        (hfollows.mono (by decide))
      rw [read_close rfl hfollows] at hright
      rw [List.append_assoc, hleft, List.cons_append, read_sub _ _ hclear]
      exact hright
  | ofProduct h ih => exact ih cs rest (hclear.mono (by decide)) (hfollows.mono (by decide))

/-- A list of tokens has one reading at most. -/
theorem Reads.unique {b : Backend} {ts : List String} {t u : Term} (ht : Reads b .sum ts t)
    (hu : Reads b .sum ts u) : t = u := by
  have hclear : Clear .sum [] := fun c hc => by cases hc
  have hfollows : Follows .sum [] := fun w hw => by cases hw
  have hread := (ht.read_append [] [] hclear hfollows).symm.trans
    (hu.read_append [] [] hclear hfollows)
  simpa [Reader.read, Reader.finish, settle] using hread

end TensorTemplate.Grammar

namespace TensorTemplate.Backend

/-- The text is read as the term, and only as this one. -/
def ReadsAs (b : Backend) (text : String) (t : Grammar.Term) : Prop :=
  ∀ u, Grammar.Reads b .sum (Grammar.tokens text) u ↔ u = t

theorem readsAs_of_reads {b : Backend} {text : String} {t : Grammar.Term}
    (h : Grammar.Reads b .sum (Grammar.tokens text) t) : b.ReadsAs text t := by
  intro u
  constructor
  · intro hu
    exact hu.unique h
  · rintro rfl
    exact h

end TensorTemplate.Backend
