/-
The preprocessor `fi.c`: it copies a text without its blanks and comments.

A byte is the character of its code. `none` stands for a read behind the bytes of the
input and for a write past the end of `out`. Each byte of `out` stands with the place of
`buf` that it was copied from, so that two equal bytes can be told apart.
-/

import Mathlib.Data.List.Basic

namespace OsCompiler.ParserLex.Fi

def MAX : Nat := 8296

/-- `while (buf[t++] != '\n');` and the value of `t` behind it. -/
def skipLine (buf : List Char) (t : Nat) : Option Nat :=
  if _ : t < buf.length then
    if buf[t] ≠ '\n' then skipLine buf (t + 1) else some (t + 1)
  else none
termination_by buf.length - t

/-- `while (buf[t] != '*' || buf[t + 1] != '/') t++;` and the value of `t` behind it. -/
def skipBlock (buf : List Char) (t : Nat) : Option Nat :=
  if _ : t < buf.length then
    if buf[t] ≠ '*' then skipBlock buf (t + 1)
    else if _ : t + 1 < buf.length then
      if buf[t + 1] ≠ '/' then skipBlock buf (t + 1) else some t
    else none
  else none
termination_by buf.length - t

def starts (buf : List Char) (i : Nat) (second : Char) : Option Bool := do
  if (← buf[i]?) = '/' then return (← buf[i + 1]?) = second else return false

/-- The first test for a comment and the value of `i` behind it. -/
def skipLineComment (buf : List Char) (i : Nat) : Option Nat := do
  if ← starts buf i '/' then skipLine buf (i + 2) else return i

/-- The second one, behind the newline of the first. -/
def skipBlockComment (buf : List Char) (i : Nat) : Option Nat := do
  if ← starts buf i '*' then return (← skipBlock buf (i + 2)) + 2 else return i

def emit (buf : List Char) (i : Nat) (out : List (Char × Nat)) : Option (List (Char × Nat)) := do
  let byte ← buf[i]?
  if out.length < MAX then return out ++ [(byte, i)] else none

def turn (buf : List Char) (i : Nat) (out : List (Char × Nat)) :
    Option (Nat × List (Char × Nat)) := do
  if (← buf[i]?) = ' ' then return (i, out)
  else
    let i ← skipLineComment buf i
    let i ← skipBlockComment buf i
    return (i, ← emit buf i out)

/-! ### The loop goes on -/

theorem skipLine_le {buf : List Char} {t after : Nat} (skipped : skipLine buf t = some after) :
    t ≤ after := by
  induction t using skipLine.induct buf with
  | case1 t inside inLine ih =>
      rw [skipLine, dif_pos inside, if_pos inLine] at skipped
      exact Nat.le_of_succ_le (ih skipped)
  | case2 t inside ends =>
      rw [skipLine, dif_pos inside, if_neg ends] at skipped
      cases skipped
      exact Nat.le_succ t
  | case3 t outside =>
      rw [skipLine, dif_neg outside] at skipped
      cases skipped

private theorem skipBlock_le {buf : List Char} {t after : Nat}
    (skipped : skipBlock buf t = some after) :
    t ≤ after := by
  induction t using skipBlock.induct buf with
  | case1 t inside inBlock ih =>
      rw [skipBlock, dif_pos inside, if_pos inBlock] at skipped
      exact Nat.le_of_succ_le (ih skipped)
  | case2 t inside star more inBlock ih =>
      rw [skipBlock, dif_pos inside, if_neg star, dif_pos more, if_pos inBlock] at skipped
      exact Nat.le_of_succ_le (ih skipped)
  | case3 t inside star more ends =>
      rw [skipBlock, dif_pos inside, if_neg star, dif_pos more, if_neg ends] at skipped
      cases skipped
      exact Nat.le_refl _
  | case4 t inside star outside =>
      rw [skipBlock, dif_pos inside, if_neg star, dif_neg outside] at skipped
      cases skipped
  | case5 t outside =>
      rw [skipBlock, dif_neg outside] at skipped
      cases skipped

private theorem skipLineComment_le {buf : List Char} {i after : Nat}
    (skipped : skipLineComment buf i = some after) : i ≤ after := by
  rcases Option.bind_eq_some_iff.mp skipped with ⟨comment, _, behind⟩
  cases comment with
  | false =>
      cases behind
      exact Nat.le_refl i
  | true =>
      have passed := skipLine_le behind
      omega

private theorem skipBlockComment_le {buf : List Char} {i after : Nat}
    (skipped : skipBlockComment buf i = some after) : i ≤ after := by
  rcases Option.bind_eq_some_iff.mp skipped with ⟨comment, _, behind⟩
  cases comment with
  | false =>
      cases behind
      exact Nat.le_refl i
  | true =>
      rcases Option.bind_eq_some_iff.mp behind with ⟨t, inner, ends⟩
      cases ends
      have passed := skipBlock_le inner
      omega

theorem turn_le {buf : List Char} {i after : Nat} {out longer : List (Char × Nat)}
    (turned : turn buf i out = some (after, longer)) : i ≤ after := by
  rcases Option.bind_eq_some_iff.mp turned with ⟨byte, _, turned⟩
  by_cases blank : byte = ' '
  · rw [if_pos blank] at turned
    cases turned
    exact Nat.le_refl i
  · rw [if_neg blank] at turned
    rcases Option.bind_eq_some_iff.mp turned with ⟨middle, line, turned⟩
    rcases Option.bind_eq_some_iff.mp turned with ⟨last, block, turned⟩
    rcases Option.bind_eq_some_iff.mp turned with ⟨_, _, same⟩
    cases same
    exact Nat.le_trans (skipLineComment_le line) (skipBlockComment_le block)

def scan (buf : List Char) (i : Nat) (out : List (Char × Nat)) : Option (List (Char × Nat)) :=
  if i < buf.length then
    match _ : turn buf i out with
    | none => none
    | some (after, longer) => scan buf (after + 1) longer
  else some out
termination_by buf.length - i
decreasing_by
  rename_i turned
  have goesOn := turn_le turned
  omega

/-- `main` for the bytes of a file: at most `MAX` are read, and a null character ends the
string in `out`. -/
def main (file : List Char) : Option (List (Char × Nat)) := do
  let out ← scan (file.take MAX) 0 []
  if out.length < MAX then return out else none

/-! ### The text without blanks and comments -/

def lineEnd : List Char → Option (List Char)
  | [] => none
  | c :: rest => if c = '\n' then some rest else lineEnd rest

def blockEnd : List Char → Option (List Char)
  | [] => none
  | c :: rest => if c = '*' ∧ rest.head? = some '/' then some rest.tail else blockEnd rest

theorem lineEnd_suffix {text rest : List Char} (ends : lineEnd text = some rest) :
    rest <:+ text := by
  induction text with
  | nil => cases ends
  | cons c text ih =>
      rw [lineEnd] at ends
      split at ends
      · cases ends
        exact List.suffix_cons c _
      · exact (ih ends).trans (List.suffix_cons c text)

private theorem blockEnd_suffix {text rest : List Char} (ends : blockEnd text = some rest) :
    rest <:+ text := by
  induction text with
  | nil => cases ends
  | cons c text ih =>
      rw [blockEnd] at ends
      split at ends
      · cases ends
        exact (List.tail_suffix text).trans (List.suffix_cons c text)
      · exact (ih ends).trans (List.suffix_cons c text)

theorem getD_lineEnd_le (text : List Char) : ((lineEnd text).getD []).length ≤ text.length := by
  cases ends : lineEnd text with
  | none => exact Nat.zero_le _
  | some rest => exact (lineEnd_suffix ends).length_le

theorem getD_blockEnd_le (text : List Char) : ((blockEnd text).getD []).length ≤ text.length := by
  cases ends : blockEnd text with
  | none => exact Nat.zero_le _
  | some rest => exact (blockEnd_suffix ends).length_le

/-- The bytes outside the comments that are no blanks, each with its place, for the end of an
input of `n` bytes; a comment that is not closed reaches to the end. -/
def kept (n : Nat) : List Char → List (Char × Nat)
  | [] => []
  | c :: rest =>
      if c = ' ' then kept n rest
      else if c = '/' ∧ rest.head? = some '/' then kept n ((lineEnd rest.tail).getD [])
      else if c = '/' ∧ rest.head? = some '*' then kept n ((blockEnd rest.tail).getD [])
      else (c, n - (rest.length + 1)) :: kept n rest
termination_by text => text.length
decreasing_by
  · exact Nat.lt_succ_self _
  · have shorter := getD_lineEnd_le rest.tail
    rw [List.length_tail] at shorter
    rw [List.length_cons]
    omega
  · have shorter := getD_blockEnd_le rest.tail
    rw [List.length_tail] at shorter
    rw [List.length_cons]
    omega
  · exact Nat.lt_succ_self _

/-! ### What the loop copies -/

/-- The text behind a comment at the beginning whose second byte is given, or the whole text;
a `/` that is tested must have a byte behind it. -/
def behindComment (second : Char) (ending : List Char → Option (List Char)) :
    List Char → Option (List Char)
  | [] => none
  | c :: rest =>
      if c = '/' then
        match rest with
        | [] => none
        | d :: body => if d = second then ending body else some (c :: rest)
      else some (c :: rest)

/-- The text behind the comments that are passed over at once: a comment, or one of each kind
directly behind each other. -/
def behindComments (text : List Char) : Option (List Char) :=
  (behindComment '/' lineEnd text).bind (behindComment '*' blockEnd)

theorem behindComment_suffix {second : Char} {ending : List Char → Option (List Char)}
    (suffix : ∀ {body rest : List Char}, ending body = some rest → rest <:+ body)
    {text rest : List Char} (behind : behindComment second ending text = some rest) :
    rest <:+ text := by
  rcases text with _ | ⟨c, _ | ⟨d, body⟩⟩
  · cases behind
  · simp only [behindComment] at behind
    split at behind
    · cases behind
    · cases behind
      exact List.suffix_refl _
  · simp only [behindComment] at behind
    split at behind
    · split at behind
      · exact (suffix behind).trans ((List.suffix_cons d body).trans (List.suffix_cons c _))
      · cases behind
        exact List.suffix_refl _
    · cases behind
      exact List.suffix_refl _

theorem behindComments_suffix {text rest : List Char} (behind : behindComments text = some rest) :
    rest <:+ text := by
  rcases Option.bind_eq_some_iff.mp behind with ⟨middle, line, block⟩
  exact (behindComment_suffix blockEnd_suffix block).trans
    (behindComment_suffix lineEnd_suffix line)

/-- The bytes that the loop copies from a text at the end of an input of `n` bytes, each with
its place: behind the comments it does not test the next byte again. -/
def copied (n : Nat) (text : List Char) : Option (List (Char × Nat)) :=
  match text with
  | [] => some []
  | c :: rest =>
      if c = ' ' then copied n rest
      else
        match _ : behindComments (c :: rest) with
        | some (d :: after) => (copied n after).map ((d, n - (after.length + 1)) :: ·)
        | _ => none
termination_by text.length
decreasing_by
  · exact Nat.lt_succ_self _
  · rename_i behind
    have bound := (behindComments_suffix behind).length_le
    simp only [List.length_cons] at bound ⊢
    omega

private theorem copied_blank (n : Nat) (rest : List Char) :
    copied n (' ' :: rest) = copied n rest := by
  rw [copied, if_pos rfl]

private theorem copied_behind {c d : Char} {rest after : List Char} (noBlank : c ≠ ' ')
    (behind : behindComments (c :: rest) = some (d :: after)) (n : Nat) :
    copied n (c :: rest) = (copied n after).map ((d, n - (after.length + 1)) :: ·) := by
  rw [copied, if_neg noBlank]
  split
  · rename_i same
    cases behind.symm.trans same
    rfl
  · rename_i other
    exact absurd behind (other d after)

private theorem copied_stuck {c : Char} {rest : List Char} (noBlank : c ≠ ' ')
    (stuck : ∀ d after, behindComments (c :: rest) ≠ some (d :: after)) (n : Nat) :
    copied n (c :: rest) = none := by
  rw [copied, if_neg noBlank]
  split
  · rename_i behind
    exact absurd behind (stuck _ _)
  · rfl

/-- The index in the input at which a text at its end begins. -/
def place (buf text : List Char) : Nat := buf.length - text.length

@[simp] theorem place_self (buf : List Char) : place buf buf = 0 := Nat.sub_self _

theorem place_cons {buf rest : List Char} {c : Char} (suffix : c :: rest <:+ buf) :
    place buf rest = place buf (c :: rest) + 1 := by
  have bound := suffix.length_le
  rw [List.length_cons] at bound
  simp only [place, List.length_cons]
  omega

theorem tail_suffix_of_cons {buf rest : List Char} {c : Char} (suffix : c :: rest <:+ buf) :
    rest <:+ buf :=
  (List.suffix_cons c rest).trans suffix

theorem getElem?_place {buf text : List Char} (suffix : text <:+ buf) :
    buf[place buf text]? = text.head? := by
  rcases suffix with ⟨done, rfl⟩
  simp [place, List.head?_eq_getElem?, List.getElem?_append_right]

theorem place_lt_iff {buf text : List Char} (suffix : text <:+ buf) :
    place buf text < buf.length ↔ text ≠ [] := by
  have bound := suffix.length_le
  rw [place, ← List.length_pos_iff]
  omega

private theorem skipLine_eq {buf text : List Char} (suffix : text <:+ buf) :
    skipLine buf (place buf text) = (lineEnd text).map (place buf) := by
  induction text with
  | nil => rw [skipLine, dif_neg (by simp [place])]; rfl
  | cons c rest ih =>
      have inside := (place_lt_iff suffix).mpr (List.cons_ne_nil c rest)
      have byte : buf[place buf (c :: rest)] = c :=
        Option.some.inj ((List.getElem?_eq_getElem inside).symm.trans (getElem?_place suffix))
      rw [skipLine, dif_pos inside, byte, lineEnd, ← place_cons suffix]
      by_cases newline : c = '\n'
      · rw [if_neg (not_not.mpr newline), if_pos newline]
        rfl
      · rw [if_pos newline, if_neg newline]
        exact ih (tail_suffix_of_cons suffix)

private theorem skipBlock_eq {buf text : List Char} (suffix : text <:+ buf) :
    (skipBlock buf (place buf text)).map (· + 2) = (blockEnd text).map (place buf) := by
  induction text with
  | nil => rw [skipBlock, dif_neg (by simp [place])]; rfl
  | cons c rest ih =>
      have inside := (place_lt_iff suffix).mpr (List.cons_ne_nil c rest)
      have byte : buf[place buf (c :: rest)] = c :=
        Option.some.inj ((List.getElem?_eq_getElem inside).symm.trans (getElem?_place suffix))
      have restSuffix := tail_suffix_of_cons suffix
      rw [skipBlock, dif_pos inside, byte, blockEnd]
      simp only [← place_cons suffix]
      by_cases star : c = '*'
      · rw [if_neg (not_not.mpr star)]
        cases rest with
        | nil => simp [place, blockEnd]
        | cons d rest =>
            have next := (place_lt_iff restSuffix).mpr (List.cons_ne_nil d rest)
            have nextByte : buf[place buf (d :: rest)] = d :=
              Option.some.inj
                ((List.getElem?_eq_getElem next).symm.trans (getElem?_place restSuffix))
            rw [dif_pos next, nextByte]
            by_cases slash : d = '/'
            · rw [if_neg (not_not.mpr slash), if_pos ⟨star, congrArg some slash⟩]
              simp [place_cons restSuffix, place_cons suffix]
            · rw [if_pos slash, if_neg fun ends => slash (Option.some.inj ends.2)]
              exact ih restSuffix
      · rw [if_pos star, if_neg fun ends => star ends.1]
        exact ih restSuffix

private theorem starts_eq {buf rest : List Char} {c : Char} (suffix : c :: rest <:+ buf)
    (second : Char) :
    starts buf (place buf (c :: rest)) second =
      if c = '/' then rest.head?.map (fun d => decide (d = second)) else some false := by
  rw [starts, getElem?_place suffix, ← place_cons suffix,
    getElem?_place (tail_suffix_of_cons suffix)]
  by_cases slash : c = '/'
  · rw [if_pos slash]
    simp only [List.head?_cons, Option.bind_eq_bind, Option.bind_some, if_pos slash]
    cases rest.head? <;> rfl
  · simp [slash]

/-- A test for a comment and the loop behind it, at the beginning of a text. -/
theorem starts_bind_eq {buf text : List Char} (suffix : text <:+ buf) {second : Char}
    (skip : Nat → Option Nat) {ending : List Char → Option (List Char)}
    (skips : ∀ {body : List Char}, body <:+ buf →
      skip (place buf body) = (ending body).map (place buf)) :
    ((starts buf (place buf text) second).bind fun comment =>
      if comment then skip (place buf text + 2) else some (place buf text)) =
      (behindComment second ending text).map (place buf) := by
  cases text with
  | nil =>
      have outside : buf[place buf []]? = none := getElem?_place suffix
      simp [starts, outside, behindComment]
  | cons c rest =>
      rw [starts_eq suffix]
      cases rest with
      | nil => by_cases slash : c = '/' <;> simp [behindComment, slash]
      | cons d body =>
          have restSuffix := tail_suffix_of_cons suffix
          have behind := skips (tail_suffix_of_cons restSuffix)
          rw [place_cons restSuffix, place_cons suffix] at behind
          by_cases slash : c = '/'
          · by_cases comment : d = second
            · simpa [behindComment, slash, comment] using behind
            · simp [behindComment, slash, comment]
          · simp [behindComment, slash]

private theorem skipLineComment_eq {buf text : List Char} (suffix : text <:+ buf) :
    skipLineComment buf (place buf text) =
      (behindComment '/' lineEnd text).map (place buf) :=
  starts_bind_eq suffix (skipLine buf) skipLine_eq

private theorem skipBlockComment_eq {buf text : List Char} (suffix : text <:+ buf) :
    skipBlockComment buf (place buf text) =
      (behindComment '*' blockEnd text).map (place buf) := by
  have skips : ∀ {body : List Char}, body <:+ buf →
      ((skipBlock buf (place buf body)).map (· + 2)) = (blockEnd body).map (place buf) :=
    skipBlock_eq
  rw [← starts_bind_eq suffix (fun t => (skipBlock buf t).map (· + 2)) skips]
  rw [skipBlockComment]
  congr 1
  funext comment
  cases comment with
  | false => rfl
  | true =>
      rw [if_pos rfl, if_pos rfl]
      cases skipBlock buf (place buf text + 2) <;> rfl

/-- The comments are passed over as in the text. -/
theorem skipComments_eq {buf text : List Char} (suffix : text <:+ buf) :
    (skipLineComment buf (place buf text)).bind (skipBlockComment buf) =
      (behindComments text).map (place buf) := by
  rw [skipLineComment_eq suffix, behindComments, Option.map_bind, Option.bind_map]
  cases behind : behindComment '/' lineEnd text with
  | none => rfl
  | some middle =>
      exact skipBlockComment_eq ((behindComment_suffix lineEnd_suffix behind).trans suffix)

private theorem emit_eq {buf rest : List Char} {c : Char} (suffix : c :: rest <:+ buf)
    (out : List (Char × Nat)) :
    emit buf (place buf (c :: rest)) out =
      if out.length < MAX then some (out ++ [(c, place buf (c :: rest))]) else none := by
  rw [emit, getElem?_place suffix]
  rfl

private theorem turn_blank {buf rest : List Char} (suffix : ' ' :: rest <:+ buf)
    (out : List (Char × Nat)) :
    turn buf (place buf (' ' :: rest)) out = some (place buf (' ' :: rest), out) := by
  rw [turn, getElem?_place suffix]
  rfl

/-- Behind the comments one byte is copied, if there is one and `out` has room. -/
theorem turn_byte {buf rest : List Char} {c : Char} (suffix : c :: rest <:+ buf)
    (noBlank : c ≠ ' ') (out : List (Char × Nat)) :
    turn buf (place buf (c :: rest)) out =
      (behindComments (c :: rest)).bind fun behind =>
        (emit buf (place buf behind) out).map fun longer => (place buf behind, longer) := by
  have comments := skipComments_eq suffix
  rw [turn, getElem?_place suffix]
  simp only [List.head?_cons, Option.bind_eq_bind, Option.bind_some, if_neg noBlank]
  rw [← Option.bind_assoc, comments, Option.bind_map]
  congr 1
  funext behind
  simp only [Function.comp]
  cases emit buf (place buf behind) out <;> rfl

private theorem scan_nil (buf : List Char) (out : List (Char × Nat)) :
    scan buf (place buf []) out = some out := by
  rw [scan, if_neg (by simp [place])]

theorem scan_cons {buf rest : List Char} {c : Char} (suffix : c :: rest <:+ buf)
    (out : List (Char × Nat)) :
    scan buf (place buf (c :: rest)) out =
      (turn buf (place buf (c :: rest)) out).bind fun turned =>
        scan buf (turned.1 + 1) turned.2 := by
  rw [scan, if_pos ((place_lt_iff suffix).mpr (List.cons_ne_nil c rest))]
  split
  · rename_i turned
    rw [turned]
    rfl
  · rename_i turned
    rw [turned]
    rfl

/-- The loop appends what it copies, as long as `out` has room for it. -/
theorem scan_eq {buf text : List Char} (suffix : text <:+ buf) {out : List (Char × Nat)}
    (room : out.length ≤ MAX) :
    scan buf (place buf text) out =
      (copied buf.length text).bind fun more =>
        if out.length + more.length ≤ MAX then some (out ++ more) else none := by
  induction text using copied.induct generalizing out with
  | case1 => rw [scan_nil, copied]; simp [room]
  | case2 rest ih =>
      rw [scan_cons suffix, turn_blank suffix, copied, if_pos rfl]
      rw [Option.bind_some, ← place_cons suffix]
      exact ih (tail_suffix_of_cons suffix) room
  | case3 c rest noBlank d after behind ih =>
      have behindSuffix := (behindComments_suffix behind).trans suffix
      rw [scan_cons suffix, turn_byte suffix noBlank, behind, copied_behind noBlank behind,
        Option.bind_some, emit_eq behindSuffix, Option.bind_map]
      by_cases more : out.length < MAX
      · rw [if_pos more, Option.bind_some, Function.comp, ← place_cons behindSuffix,
          ih (tail_suffix_of_cons behindSuffix) (List.length_append ▸ more), Option.bind_map]
        congr 1
        funext copies
        simp [place, Nat.add_assoc, Nat.add_comm 1]
      · rw [if_neg more]
        cases copied buf.length after with
        | none => rfl
        | some copies =>
            have full : ¬ out.length + (copies.length + 1) ≤ MAX := by omega
            simp [full]
  | case4 c rest noBlank stuck =>
      rw [scan_cons suffix, turn_byte suffix noBlank, copied_stuck noBlank stuck]
      cases behind : behindComments (c :: rest) with
      | none => rfl
      | some text =>
          cases text with
          | nil =>
              have outside : emit buf (place buf []) out = none := by
                rw [emit, getElem?_place List.nil_suffix]
                rfl
              rw [Option.bind_some, outside]
              rfl
          | cons d after => exact absurd behind (stuck d after)

/-! ### When that is the text without blanks and comments -/

def Ordinary (c : Char) (rest : List Char) : Prop :=
  c ≠ ' ' ∧ ¬ (c = '/' ∧ (rest.head? = some '/' ∨ rest.head? = some '*'))

/-- Behind each comment, and behind those that are passed over with it, stands a byte that is
neither a blank nor the beginning of another one. -/
inductive Clean : List Char → Prop
  | nil : Clean []
  | blank {rest : List Char} (clean : Clean rest) : Clean (' ' :: rest)
  | byte {c d : Char} {rest after : List Char} (noBlank : c ≠ ' ')
      (behind : behindComments (c :: rest) = some (d :: after)) (ordinary : Ordinary d after)
      (clean : Clean after) : Clean (c :: rest)

private theorem kept_blank (n : Nat) (rest : List Char) : kept n (' ' :: rest) = kept n rest := by
  rw [kept, if_pos rfl]

private theorem kept_ordinary {c : Char} {rest : List Char} (ordinary : Ordinary c rest) (n : Nat) :
    kept n (c :: rest) = (c, n - (rest.length + 1)) :: kept n rest := by
  rw [kept, if_neg ordinary.1, if_neg fun line => ordinary.2 ⟨line.1, .inl line.2⟩,
    if_neg fun block => ordinary.2 ⟨block.1, .inr block.2⟩]

private theorem kept_lineComment (n : Nat) (body : List Char) :
    kept n ('/' :: '/' :: body) = kept n ((lineEnd body).getD []) := by
  rw [kept, if_neg (by decide), if_pos ⟨rfl, rfl⟩]
  rfl

private theorem kept_blockComment (n : Nat) (body : List Char) :
    kept n ('/' :: '*' :: body) = kept n ((blockEnd body).getD []) := by
  rw [kept, if_neg (by decide), if_neg (by simp), if_pos ⟨rfl, rfl⟩]
  rfl

private theorem kept_behindComment {second : Char} {ending : List Char → Option (List Char)}
    {n : Nat}
    (comment : ∀ body, kept n ('/' :: second :: body) = kept n ((ending body).getD []))
    {text rest : List Char} (behind : behindComment second ending text = some rest) :
    kept n text = kept n rest := by
  rcases text with _ | ⟨c, _ | ⟨d, body⟩⟩
  · cases behind
  · simp only [behindComment] at behind
    split at behind
    · cases behind
    · cases behind
      rfl
  · simp only [behindComment] at behind
    split at behind
    · rename_i slash
      split at behind
      · rename_i same
        rw [slash, same, comment, behind, Option.getD_some]
      · cases behind
        rfl
    · cases behind
      rfl

private theorem kept_behindComments {text rest : List Char}
    (behind : behindComments text = some rest)
    (n : Nat) : kept n text = kept n rest := by
  rcases Option.bind_eq_some_iff.mp behind with ⟨middle, line, block⟩
  rw [kept_behindComment (kept_lineComment n) line,
    kept_behindComment (kept_blockComment n) block]

/-- What is kept of a text stands in it. -/
theorem kept_places {n : Nat} {text : List Char} {byte : Char × Nat}
    (member : byte ∈ kept n text) : n - text.length ≤ byte.2 := by
  induction text using kept.induct with
  | case1 =>
      rw [kept] at member
      cases member
  | case2 rest ih =>
      rw [kept_blank] at member
      have later := ih member
      rw [List.length_cons]
      omega
  | case3 c rest noBlank line ih =>
      rw [kept, if_neg noBlank, if_pos line] at member
      have later := ih member
      have shorter := getD_lineEnd_le rest.tail
      rw [List.length_tail] at shorter
      rw [List.length_cons]
      omega
  | case4 c rest noBlank noLine block ih =>
      rw [kept, if_neg noBlank, if_neg noLine, if_pos block] at member
      have later := ih member
      have shorter := getD_blockEnd_le rest.tail
      rw [List.length_tail] at shorter
      rw [List.length_cons]
      omega
  | case5 c rest noBlank noLine noBlock ih =>
      rw [kept, if_neg noBlank, if_neg noLine, if_neg noBlock] at member
      rcases List.mem_cons.mp member with rfl | member
      · exact Nat.le_refl _
      · have later := ih member
        rw [List.length_cons]
        omega

private theorem clean_blank_iff {rest : List Char} : Clean (' ' :: rest) ↔ Clean rest := by
  constructor
  · intro clean
    cases clean with
    | blank clean => exact clean
    | byte noBlank => exact absurd rfl noBlank
  · exact Clean.blank

private theorem clean_behind_iff {c d : Char} {rest after : List Char} (noBlank : c ≠ ' ')
    (behind : behindComments (c :: rest) = some (d :: after)) :
    Clean (c :: rest) ↔ Ordinary d after ∧ Clean after := by
  constructor
  · intro clean
    cases clean with
    | blank => exact absurd rfl noBlank
    | byte _ same ordinary clean =>
        cases behind.symm.trans same
        exact ⟨ordinary, clean⟩
  · rintro ⟨ordinary, clean⟩
    exact .byte noBlank behind ordinary clean

/-- A byte behind a comment that should not be kept is copied before everything that should. -/
theorem copied_ne_kept {n : Nat} {d : Char} {after : List Char} (inside : after.length < n)
    (later : ∀ byte ∈ kept n (d :: after), n - after.length ≤ byte.2)
    (copies : List (Char × Nat)) :
    (d, n - (after.length + 1)) :: copies ≠ kept n (d :: after) := by
  intro same
  have first : (d, n - (after.length + 1)) ∈ kept n (d :: after) := same ▸ List.mem_cons_self
  have bound := later _ first
  dsimp only at bound
  omega

/-- What is no ordinary byte is not kept itself. -/
theorem kept_later {n : Nat} {d : Char} {after : List Char} (notOrdinary : ¬ Ordinary d after) :
    ∀ byte ∈ kept n (d :: after), n - after.length ≤ byte.2 := by
  intro byte member
  rw [kept] at member
  split at member
  · exact kept_places member
  · rename_i noBlank
    split at member
    · have bound := kept_places member
      have shorter := getD_lineEnd_le after.tail
      rw [List.length_tail] at shorter
      omega
    · rename_i noLine
      split at member
      · have bound := kept_places member
        have shorter := getD_blockEnd_le after.tail
        rw [List.length_tail] at shorter
        omega
      · rename_i noBlock
        refine absurd ⟨noBlank, ?_⟩ notOrdinary
        rintro ⟨slash, line | block⟩
        · exact noLine ⟨slash, line⟩
        · exact noBlock ⟨slash, block⟩

private theorem copied_eq_kept_iff {n : Nat} {text : List Char} (inside : text.length ≤ n) :
    copied n text = some (kept n text) ↔ Clean text := by
  induction text using copied.induct with
  | case1 => simp [copied, kept, Clean.nil]
  | case2 rest ih =>
      rw [copied_blank, kept_blank, clean_blank_iff]
      exact ih (Nat.le_of_succ_le inside)
  | case3 c rest noBlank d after behind ih =>
      have shorter := (behindComments_suffix behind).length_le
      simp only [List.length_cons] at shorter inside
      rw [copied_behind noBlank behind, kept_behindComments behind, clean_behind_iff noBlank behind]
      by_cases ordinary : Ordinary d after
      · rw [kept_ordinary ordinary, ← ih (by omega)]
        simp [ordinary]
      · refine iff_of_false ?_ fun clean => ordinary clean.1
        intro same
        rcases Option.map_eq_some_iff.mp same with ⟨copies, _, same⟩
        exact copied_ne_kept (by omega) (kept_later ordinary) copies same
  | case4 c rest noBlank stuck =>
      rw [copied_stuck noBlank stuck]
      refine iff_of_false (fun same => nomatch same) ?_
      intro clean
      cases clean with
      | blank => exact noBlank rfl
      | byte _ behind => exact stuck _ _ behind

theorem main_eq {input : List Char} (size : input.length ≤ MAX) :
    main input = (copied input.length input).bind fun out =>
      if out.length < MAX then some out else none := by
  have empty : ([] : List (Char × Nat)).length ≤ MAX := Nat.zero_le MAX
  have whole := scan_eq (List.suffix_refl input) empty
  rw [place_self] at whole
  rw [main, List.take_of_length_le size, whole]
  cases copied input.length input with
  | none => rfl
  | some out =>
      by_cases room : out.length < MAX
      · simp [room, Nat.le_of_lt room]
      · by_cases full : out.length ≤ MAX <;> simp [room, full]

/-- Within the input and `out`, what `main` prints is the text without its blanks and
comments exactly if the text is clean and `out` has room for the null character too. -/
theorem main_eq_kept_iff {input : List Char} (size : input.length ≤ MAX) :
    main input = some (kept input.length input) ↔
      Clean input ∧ (kept input.length input).length < MAX := by
  rw [← copied_eq_kept_iff (Nat.le_refl input.length), main_eq size]
  constructor
  · intro same
    rcases Option.bind_eq_some_iff.mp same with ⟨out, scanned, room⟩
    split at room
    · rename_i bound
      cases room
      exact ⟨scanned, bound⟩
    · cases room
  · rintro ⟨scanned, room⟩
    rw [scanned, Option.bind_some, if_pos room]

theorem main_eq_kept_ab : main "a //\n/**/b".toList = some [('a', 0), ('b', 9)] := by
  have clean : Clean "a //\n/**/b".toList :=
    .byte (by decide) rfl ⟨by decide, by decide⟩
      (.blank (.byte (by decide) rfl ⟨by decide, by decide⟩ .nil))
  have same := (main_eq_kept_iff (by decide)).mpr ⟨clean, by decide +kernel⟩
  exact same.trans (by decide +kernel)

/-- The blank behind a comment is copied. -/
theorem blankBehindComment_copied : main "/**/ b".toList = some [(' ', 4), ('b', 5)] ∧
    main "/**/ b".toList ≠ some (kept 6 "/**/ b".toList) := by
  decide +kernel

end OsCompiler.ParserLex.Fi
