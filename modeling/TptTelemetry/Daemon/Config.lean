import TptTelemetry.Lib.Lines
import TptTelemetry.Lib.Text

namespace TptTelemetry.Daemon.Config

open TptTelemetry.Lib TptTelemetry.Lib.Text

/-- The inner loop: the name up to the closing brace, with what follows it, or
all that is left when there is no brace. -/
def readName (name : Str) : Str → Except Str (Str × Str)
  | [] => .error name
  | c :: chars => if c = '}' then .ok (name, chars) else readName (name ++ [c]) chars

theorem length_readName {name chars name' rest : Str}
    (h : readName name chars = .ok (name', rest)) : rest.length < chars.length := by
  induction chars generalizing name with
  | nil => cases h
  | cons c chars ih =>
    rw [readName] at h
    split at h
    · cases h
      exact Nat.lt_succ_self _
    · exact Nat.lt_succ_of_lt (ih h)

def opening : Str := ['$', '{']

/-- The loop of `subst` over the characters, with the text so far. The
environment gives nothing for a variable that is not set. -/
def substLoop (env : Str → Option Str) (out : Str) : Str → Str
  | [] => out
  | c :: chars =>
    if c = '$' ∧ chars.head? = some '{' then
      match _h : readName [] chars.tail with
      | .error name => out ++ opening ++ name
      | .ok (name, rest) =>
        match env name with
        | some v => substLoop env (out ++ v) rest
        | none => substLoop env (out ++ opening ++ name ++ ['}']) rest
    else substLoop env (out ++ [c]) chars
termination_by chars => chars.length
decreasing_by
  · have := length_readName ‹_›
    simp only [List.length_cons, List.length_tail] at *
    omega
  · have := length_readName ‹_›
    simp only [List.length_cons, List.length_tail] at *
    omega
  · exact Nat.lt_succ_self _

def subst (env : Str → Option Str) (s : Str) : Str := substLoop env [] s

/-- A text with references in it: each behind a literal, and behind the last
literal there may be a reference that is not closed. -/
structure Template where
  refs : List (Str × Str)
  last : Str
  tail : Option Str
  refs_plain : ∀ r ∈ refs, ¬ opening <:+: r.1 ∧ '}' ∉ r.2
  last_plain : ¬ opening <:+: last
  tail_open : ∀ t ∈ tail, '}' ∉ t

def reference (name : Str) : Str := opening ++ name ++ ['}']

def Template.rest (t : Template) : Str := t.last ++ t.tail.elim [] (opening ++ ·)

def Template.text (t : Template) : Str := t.refs.flatMap (fun r => r.1 ++ reference r.2) ++ t.rest

/-- Each reference replaced by the value of its variable, or left as it is. -/
def Template.filled (env : Str → Option Str) (t : Template) : Str :=
  t.refs.flatMap (fun r => r.1 ++ (env r.2).getD (reference r.2)) ++ t.rest

section Loop

variable (env : Str → Option Str)

theorem readName_closed {name : Str} (h : '}' ∉ name) (pre rest : Str) :
    readName pre (name ++ '}' :: rest) = .ok (pre ++ name, rest) := by
  induction name generalizing pre with
  | nil => simp [readName]
  | cons c name ih =>
    obtain ⟨hc, hname⟩ := List.ne_and_not_mem_of_not_mem_cons h
    rw [List.cons_append, readName, if_neg (Ne.symm hc), ih hname]
    simp

theorem readName_open {name : Str} (h : '}' ∉ name) (pre : Str) :
    readName pre name = .error (pre ++ name) := by
  induction name generalizing pre with
  | nil => simp [readName]
  | cons c name ih =>
    obtain ⟨hc, hname⟩ := List.ne_and_not_mem_of_not_mem_cons h
    rw [readName, if_neg (Ne.symm hc), ih hname]
    simp

/-- A literal is copied, up to a character that does not complete an opening
with its last one. -/
theorem substLoop_literal {l rest : Str} (hl : ¬ opening <:+: l) (hrest : rest.head? ≠ some '{')
    (out : Str) : substLoop env out (l ++ rest) = substLoop env (out ++ l) rest := by
  induction l generalizing out with
  | nil => simp
  | cons c l ih =>
    rw [opening, List.infix_cons_iff, not_or] at hl
    have hno : ¬ (c = '$' ∧ (l ++ rest).head? = some '{') := by
      rintro ⟨rfl, hhead⟩
      cases l with
      | nil => exact hrest hhead
      | cons d l =>
        obtain rfl : d = '{' := Option.some.inj hhead
        exact hl.1 ⟨l, rfl⟩
    rw [List.cons_append, substLoop, if_neg hno, ih hl.2]
    simp

theorem substLoop_reference {name : Str} (h : '}' ∉ name) (rest out : Str) :
    substLoop env out (reference name ++ rest) =
      substLoop env (out ++ (env name).getD (reference name)) rest := by
  have hname : readName [] (name ++ '}' :: rest) = .ok (name, rest) := readName_closed h [] rest
  have htext : reference name ++ rest = '$' :: '{' :: (name ++ '}' :: rest) := by
    simp [reference, opening]
  rw [htext, substLoop, if_pos ⟨rfl, rfl⟩]
  split
  · next heq =>
    rw [List.tail_cons, hname] at heq
    cases heq
  · next heq =>
    rw [List.tail_cons, hname] at heq
    cases heq
    cases env name with
    | some v => rfl
    | none => simp [reference]

theorem substLoop_tail {t : Str} (h : '}' ∉ t) (out : Str) :
    substLoop env out (opening ++ t) = out ++ (opening ++ t) := by
  have hname : readName [] t = .error t := readName_open h []
  have htext : opening ++ t = '$' :: '{' :: t := rfl
  rw [htext, substLoop, if_pos ⟨rfl, rfl⟩]
  split
  · next heq =>
    rw [List.tail_cons, hname] at heq
    cases heq
    rw [List.append_assoc, htext]
  · next heq =>
    rw [List.tail_cons, hname] at heq
    cases heq

theorem substLoop_rest (t : Template) (out : Str) :
    substLoop env out t.rest = out ++ t.rest := by
  rw [Template.rest]
  cases ht : t.tail with
  | none =>
    rw [substLoop_literal env t.last_plain (by simp)]
    simp [substLoop]
  | some u =>
    have hu : '}' ∉ u := t.tail_open u ht
    rw [Option.elim_some, substLoop_literal env t.last_plain (by simp [opening]),
      substLoop_tail env hu, List.append_assoc]

end Loop

theorem subst_text (env : Str → Option Str) (t : Template) : subst env t.text = t.filled env := by
  have hrefs : ∀ (refs : List (Str × Str)) (out : Str),
      (∀ r ∈ refs, ¬ opening <:+: r.1 ∧ '}' ∉ r.2) →
      substLoop env out (refs.flatMap (fun r => r.1 ++ reference r.2) ++ t.rest) =
        out ++ (refs.flatMap (fun r => r.1 ++ (env r.2).getD (reference r.2)) ++ t.rest) := by
    intro refs out h
    induction refs generalizing out with
    | nil => exact substLoop_rest env t out
    | cons r refs ih =>
      obtain ⟨⟨hlit, hname⟩, hrefs⟩ := List.forall_mem_cons.mp h
      rw [List.flatMap_cons, List.append_assoc, List.append_assoc,
        substLoop_literal env hlit (by simp [reference, opening]), substLoop_reference env hname,
        ih _ hrefs]
      simp
  exact hrefs t.refs [] t.refs_plain

theorem exists_template (s : Str) : ∃ t : Template, t.text = s := by
  induction hn : s.length using Nat.strongRecOn generalizing s with
  | _ n ih =>
    obtain hno | ⟨l, r, rfl, hl⟩ := Lines.exists_first_pair '$' '{' s
    · exact ⟨⟨[], s, none, by simp, hno, by simp⟩, by simp [Template.text, Template.rest]⟩
    by_cases hr : '}' ∈ r
    · obtain ⟨name, rest, rfl, hname⟩ := List.eq_append_cons_of_mem hr
      obtain ⟨t, rfl⟩ := ih rest.length (by rw [← hn]; simp; omega) rest rfl
      refine ⟨⟨(l, name) :: t.refs, t.last, t.tail, ?_, t.last_plain, t.tail_open⟩, ?_⟩
      · exact List.forall_mem_cons.mpr ⟨⟨hl, hname⟩, t.refs_plain⟩
      · simp [Template.text, Template.rest, reference, opening]
    · refine ⟨⟨[], l, some r, by simp, hl, ?_⟩, by simp [Template.text, Template.rest, opening]⟩
      intro u hu
      cases hu
      exact hr

theorem filled_unset (t : Template) : t.filled (fun _ => none) = t.text := rfl

/-- Interpolation replaces each reference once, from left to right, and does not
look at the values again. With no variable set it changes nothing. -/
theorem subst_once :
    (∀ (env : Str → Option Str) (t : Template), subst env t.text = t.filled env) ∧
      ∀ s, subst (fun _ => none) s = s := by
  refine ⟨subst_text, fun s => ?_⟩
  obtain ⟨t, rfl⟩ := exists_template s
  rw [subst_text, filled_unset]

example : subst (fun name => if name = "A".toList then some "$\x7bB\x7d".toList else some [])
    "$$\x7bA\x7d-$\x7bB\x7d$\x7bC".toList = "$$\x7bB\x7d-$\x7bC".toList := by
  decide +kernel

end TptTelemetry.Daemon.Config
