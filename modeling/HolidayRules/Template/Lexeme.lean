import HolidayRules.Template.Basic

set_option autoImplicit false

/-!
# The lexemes of a template

A template is cut into groups in double braces, which may hold further groups, and the text between
them. Braces are taken in pairs from left to right. Opening braces that are never closed are text.
-/
namespace HolidayRules.Template

/-- A group is given without its outer braces. -/
inductive Token where
  | text (t : Text)
  | group (content : Text)
deriving DecidableEq, Repr

/-- A token with the byte positions of its ends; no token stands at the end of the template. -/
structure Lexeme where
  token : Option Token
  start : Nat
  stop : Nat
deriving DecidableEq, Repr

/-- What stands before and after the braces that close a group in which `depth` more are open. -/
def closeGroup? : Nat → Text → Option (Text × Text)
  | _, [] => none
  | depth, '{' :: '{' :: rest =>
    (closeGroup? (depth + 1) rest).map fun parts => ('{' :: '{' :: parts.1, parts.2)
  | 0, '}' :: '}' :: rest => some ([], rest)
  | depth + 1, '}' :: '}' :: rest =>
    (closeGroup? depth rest).map fun parts => ('}' :: '}' :: parts.1, parts.2)
  | depth, c :: rest => (closeGroup? depth rest).map fun parts => (c :: parts.1, parts.2)

def untilOpen : Text → Text × Text
  | [] => ([], [])
  | '{' :: '{' :: rest => ([], '{' :: '{' :: rest)
  | c :: rest => (c :: (untilOpen rest).1, (untilOpen rest).2)

def group? : Text → Option (Text × Text)
  | '{' :: '{' :: rest => closeGroup? 0 rest
  | _ => none

/-- The first token of a text and the rest behind it. Text takes at least one character, whether or
not that is a brace. -/
def nextToken? : Text → Option (Token × Text)
  | [] => none
  | c :: rest =>
    match group? (c :: rest) with
    | some (content, after) => some (.group content, after)
    | none => some (.text (c :: (untilOpen rest).1), (untilOpen rest).2)

theorem eq_of_closeGroup? {depth : Nat} {t content after : Text}
    (h : closeGroup? depth t = some (content, after)) :
    t = content ++ closeBraces ++ after := by
  fun_induction closeGroup? depth t generalizing content after with
  | case1 => simp at h
  | case2 depth rest ih =>
    obtain ⟨parts, hc, he⟩ := Option.map_eq_some_iff.1 h
    cases he
    simp [ih hc]
  | case3 rest =>
    cases h
    rfl
  | case4 depth rest ih =>
    obtain ⟨parts, hc, he⟩ := Option.map_eq_some_iff.1 h
    cases he
    simp [ih hc]
  | case5 depth c rest _ _ _ ih =>
    obtain ⟨parts, hc, he⟩ := Option.map_eq_some_iff.1 h
    cases he
    simp [ih hc]

theorem eq_of_untilOpen (t : Text) : t = (untilOpen t).1 ++ (untilOpen t).2 := by
  fun_induction untilOpen t with
  | case1 => rfl
  | case2 => rfl
  | case3 c rest _ ih => simp [← ih]

theorem eq_of_group? {t content after : Text} (h : group? t = some (content, after)) :
    t = inBraces content ++ after := by
  unfold group? at h
  split at h
  next rest => simp [eq_of_closeGroup? h, inBraces, openBraces]
  next => cases h

def Token.source : Token → Text
  | text t => t
  | group content => inBraces content

theorem eq_of_nextToken? {t rest : Text} {token : Token} (h : nextToken? t = some (token, rest)) :
    t = token.source ++ rest := by
  unfold nextToken? at h
  split at h
  · cases h
  · split at h
    next hg =>
      cases h
      exact eq_of_group? hg
    next c tail _ _ =>
      cases h
      simp [Token.source, ← eq_of_untilOpen tail]

theorem nextToken?_source_ne_nil {t rest : Text} {token : Token}
    (h : nextToken? t = some (token, rest)) : token.source ≠ [] := by
  unfold nextToken? at h
  split at h
  · cases h
  · split at h <;> cases h <;> simp [Token.source, inBraces, openBraces]

theorem length_lt_of_nextToken? {t rest : Text} {token : Token}
    (h : nextToken? t = some (token, rest)) : rest.length < t.length := by
  have ht := congrArg List.length (eq_of_nextToken? h)
  have hpos := List.length_pos_iff.2 (nextToken?_source_ne_nil h)
  simp only [List.length_append] at ht
  omega

theorem length_content_lt {t rest content : Text}
    (h : nextToken? t = some (.group content, rest)) : content.length < t.length := by
  have ht := congrArg List.length (eq_of_nextToken? h)
  simp only [Token.source, inBraces, openBraces, closeBraces, List.length_append,
    List.length_cons] at ht
  omega

def scanFrom (position : Nat) (t : Text) : List Lexeme :=
  match h : nextToken? t with
  | none => [⟨none, position, position⟩]
  | some (token, rest) =>
    have := length_lt_of_nextToken? h
    let stop := position + token.source.byteLength
    ⟨some token, position, stop⟩ :: scanFrom stop rest
termination_by t.length

def scan (t : Text) : List Lexeme := scanFrom 0 t

end HolidayRules.Template
