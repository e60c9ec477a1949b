import Tinox.Runtime.JsonWriter
import Tinox.Runtime.Substrings

/-!
# Parsing URIs

`Uri::parse` looks for the three separators behind the scheme and cuts the text at those that it
finds.  Behind a path it looks for a fragment only where a question mark stands in it.
-/

namespace Tinox.Formats.Uri

open Tinox.Runtime

/-- `UriParts`. -/
structure UriParts where
  scheme : CString
  host : CString
  path : CString
  query : CString
  fragment : CString
  deriving DecidableEq

/-- `tinox_string_index_of`. -/
def indexOf (haystack needle : CString) : Int :=
  match strstr needle haystack with
  | some pos => pos
  | none => -1

/-- `tinox_string_substring`. -/
def substring (s : CString) (start stop : Int) : CString :=
  (s.take stop.toNat).drop start.toNat

/-- The part of `Uri::parse` behind the scheme. -/
def parseRemaining (scheme remaining : CString) : UriParts :=
  let pathStart := indexOf remaining (literal "/")
  let queryStart := indexOf remaining (literal "?")
  let fragmentStart := indexOf remaining (literal "#")
  if pathStart = -1 ∧ queryStart = -1 ∧ fragmentStart = -1 then ⟨scheme, remaining, [], [], []⟩
  else if pathStart ≠ -1 ∧ (queryStart = -1 ∨ pathStart < queryStart) ∧
      (fragmentStart = -1 ∨ pathStart < fragmentStart) then
    let host := substring remaining 0 pathStart
    let remainingPath := substring remaining pathStart remaining.length
    if fragmentStart ≠ -1 ∧ queryStart ≠ -1 ∧ fragmentStart < queryStart then
      ⟨scheme, host, substring remainingPath 0 (fragmentStart - pathStart), [],
        substring remainingPath (fragmentStart - pathStart + 1) remainingPath.length⟩
    else if queryStart ≠ -1 then
      ⟨scheme, host, substring remainingPath 0 (queryStart - pathStart),
        substring remainingPath (queryStart - pathStart + 1) remainingPath.length, []⟩
    else ⟨scheme, host, remainingPath, [], []⟩
  else if queryStart ≠ -1 ∧ (fragmentStart = -1 ∨ queryStart < fragmentStart) then
    ⟨scheme, substring remaining 0 queryStart, [],
      substring remaining (queryStart + 1) fragmentStart,
      if fragmentStart ≠ -1 then substring remaining (fragmentStart + 1) remaining.length else []⟩
  else if fragmentStart ≠ -1 then
    ⟨scheme, substring remaining 0 fragmentStart, [], [],
      substring remaining (fragmentStart + 1) remaining.length⟩
  else ⟨scheme, [], [], [], []⟩

/-- `Uri::parse`. -/
def parse (url : CString) : UriParts :=
  let schemeEnd := indexOf url (literal "://")
  if schemeEnd = -1 then ⟨[], [], [], [], []⟩
  else parseRemaining (substring url 0 schemeEnd) (substring url (schemeEnd + 3) url.length)

/-- The components that a URI is written of. -/
structure Components where
  scheme : CString
  host : CString
  path : CString
  query : Option CString
  fragment : Option CString
  oneScheme : ¬ literal "://" <:+: scheme
  hostFree : '/'.toUInt8 ∉ host ∧ '?'.toUInt8 ∉ host ∧ '#'.toUInt8 ∉ host
  pathStarts : path = [] ∨ path.head? = some '/'.toUInt8
  pathFree : '?'.toUInt8 ∉ path ∧ '#'.toUInt8 ∉ path
  queryFree : '#'.toUInt8 ∉ query.getD []

namespace Components

/-- A component behind its separator, or nothing. -/
def behind (separator : Char) : Option CString → CString
  | none => []
  | some component => separator.toUInt8 :: component

/-- What stands behind the scheme. -/
def remaining (c : Components) : CString :=
  c.host ++ (c.path ++ (behind '?' c.query ++ behind '#' c.fragment))

def text (c : Components) : CString :=
  c.scheme ++ (literal "://" ++ c.remaining)

def parts (c : Components) : UriParts :=
  ⟨c.scheme, c.host, c.path, c.query.getD [], c.fragment.getD []⟩

/-- Without a path a query needs a fragment behind it, and behind a path a fragment needs a question
mark of its own. -/
def Recovered (c : Components) : Prop :=
  if c.path = [] then c.query.getD [] = [] ∨ c.fragment.isSome
  else c.fragment = none ∨ c.query = none ∧ '?'.toUInt8 ∈ c.fragment.getD []

end Components

section Positions

variable {b : UInt8} {piece : CString}

theorem indexOf_here (free : b ∉ piece) (s : CString) :
    indexOf (piece ++ b :: s) [b] = piece.length := by
  rw [indexOf, strstr_free free]
  have isHere := strstr_here [b] s
  rw [List.singleton_append] at isHere
  rw [isHere]
  exact congrArg Int.ofNat (Nat.zero_add _)

theorem indexOf_none (free : b ∉ piece) : indexOf piece [b] = -1 := by
  have isNone : strstr [b] piece = none := by
    rw [strstr_none_iff, List.singleton_infix_iff]
    exact free
  rw [indexOf, isNone]

theorem indexOf_behind (free : b ∉ piece) (s : CString) :
    b ∉ s ∧ indexOf (piece ++ s) [b] = -1 ∨
      b ∈ s ∧ (piece.length : Int) ≤ indexOf (piece ++ s) [b] := by
  rw [indexOf, strstr_free free]
  cases isFound : strstr [b] s with
  | none =>
      rw [strstr_none_iff, List.singleton_infix_iff] at isFound
      exact Or.inl ⟨isFound, rfl⟩
  | some k =>
      refine Or.inr ⟨?_, ?_⟩
      · by_contra notIn
        rw [← List.singleton_infix_iff, ← strstr_none_iff, isFound] at notIn
        contradiction
      · exact Int.ofNat_le.mpr (Nat.le_add_left _ _)

end Positions

theorem substring_between (a b c : CString) {start stop : Int} (isStart : start = a.length)
    (isStop : stop = a.length + b.length) : substring (a ++ (b ++ c)) start stop = b := by
  rw [substring, isStop, isStart, ← Int.natCast_add, Int.toNat_natCast, Int.toNat_natCast,
    ← List.append_assoc, ← List.length_append, List.take_left, List.drop_left]

theorem substring_front (a c : CString) : substring (a ++ c) 0 a.length = a :=
  substring_between [] a c rfl (by simp)

theorem substring_back (a b : CString) :
    substring (a ++ b) a.length (a ++ b).length = b := by
  have isBack := substring_between a b [] rfl (congrArg Int.ofNat (@List.length_append _ a b))
  rwa [List.append_nil] at isBack

theorem substring_behind (a b : CString) (separator : UInt8) :
    substring (a ++ separator :: b) (a.length + 1) (a ++ separator :: b).length = b := by
  have isBack := substring_back (a ++ [separator]) b
  rwa [List.length_append, List.append_assoc, Int.natCast_add] at isBack

theorem indexOf_scheme {scheme : CString} (one : ¬ literal "://" <:+: scheme) (s : CString) :
    indexOf (scheme ++ (literal "://" ++ s)) (literal "://") = scheme.length := by
  have isFound : strstr (literal "://") (scheme ++ (literal "://" ++ s)) = some scheme.length := by
    induction scheme with
    | nil => exact strstr_here (literal "://") s
    | cons d scheme ih =>
        rw [List.infix_cons_iff, not_or] at one
        have notHere : ¬ (literal "://").isPrefixOf (d :: (scheme ++ (literal "://" ++ s))) := by
          intro isHere
          rw [List.isPrefixOf_iff_prefix] at isHere
          have apart : '/'.toUInt8 ≠ ':'.toUInt8 := by decide
          match scheme, one, isHere with
          | [], _, isHere => simp [literal, apart] at isHere
          | [e], _, isHere => simp [literal, apart] at isHere
          | e :: f :: scheme, one, isHere =>
              apply one.1
              simp [literal] at isHere ⊢
              exact isHere
        rw [List.cons_append, strstr, if_neg notHere, ih one.2]
        rfl
  rw [indexOf, isFound]

theorem parse_text (c : Components) : parse c.text = parseRemaining c.scheme c.remaining := by
  have isScheme := indexOf_scheme c.oneScheme c.remaining
  have notNone : (c.scheme.length : Int) ≠ -1 := by omega
  rw [parse, Components.text, isScheme, if_neg notNone]
  congr 1
  · exact substring_between [] c.scheme _ rfl (by simp)
  · have isRest := @substring_between (c.scheme ++ literal "://") c.remaining []
      (c.scheme.length + 3) (c.scheme ++ (literal "://" ++ c.remaining)).length (by simp [literal])
      (by simp [Int.add_assoc])
    rwa [List.append_nil, List.append_assoc] at isRest

section Host

variable {scheme host : CString}

theorem parseRemaining_host (noSlash : '/'.toUInt8 ∉ host) (noQuestion : '?'.toUInt8 ∉ host)
    (noHash : '#'.toUInt8 ∉ host) : parseRemaining scheme host = ⟨scheme, host, [], [], []⟩ := by
  have isPath : indexOf host (literal "/") = -1 := indexOf_none noSlash
  have isQuery : indexOf host (literal "?") = -1 := indexOf_none noQuestion
  have isFragment : indexOf host (literal "#") = -1 := indexOf_none noHash
  rw [parseRemaining, isPath, isQuery, isFragment]
  rfl

theorem indexOf_later {b e : UInt8} {piece : CString} (apart : b ≠ e) (free : b ∉ piece)
    (s : CString) : b ∉ s ∧ indexOf (piece ++ e :: s) [b] = -1 ∨
      b ∈ s ∧ piece.length < indexOf (piece ++ e :: s) [b] := by
  have freeHere : b ∉ piece ++ [e] := by
    rw [List.mem_append, List.mem_singleton, not_or]
    exact ⟨free, apart⟩
  have isBehind := indexOf_behind freeHere s
  rw [List.append_assoc, List.singleton_append, List.length_append, List.length_singleton] at isBehind
  rcases isBehind with isNone | ⟨isIn, isLater⟩
  · exact Or.inl isNone
  · exact Or.inr ⟨isIn, Int.lt_of_add_one_le isLater⟩

theorem parseRemaining_host_fragment (noSlash : '/'.toUInt8 ∉ host) (noQuestion : '?'.toUInt8 ∉ host)
    (noHash : '#'.toUInt8 ∉ host) (fragment : CString) :
    parseRemaining scheme (host ++ '#'.toUInt8 :: fragment) =
      ⟨scheme, host, [], [], fragment⟩ := by
  have isFragment : indexOf (host ++ '#'.toUInt8 :: fragment) (literal "#") = host.length :=
    indexOf_here noHash fragment
  have isPath : indexOf (host ++ '#'.toUInt8 :: fragment) (literal "/") = -1 ∨
      host.length < indexOf (host ++ '#'.toUInt8 :: fragment) (literal "/") :=
    (indexOf_later (by decide) noSlash fragment).imp And.right And.right
  have isQuery : indexOf (host ++ '#'.toUInt8 :: fragment) (literal "?") = -1 ∨
      host.length < indexOf (host ++ '#'.toUInt8 :: fragment) (literal "?") :=
    (indexOf_later (by decide) noQuestion fragment).imp And.right And.right
  rw [parseRemaining, isFragment, if_neg (by omega), if_neg (by omega), if_neg (by omega),
    if_pos (by omega), substring_front, substring_behind]

theorem parseRemaining_host_query (noSlash : '/'.toUInt8 ∉ host) (noQuestion : '?'.toUInt8 ∉ host)
    (noHash : '#'.toUInt8 ∉ host) {query : CString} (free : '#'.toUInt8 ∉ query) :
    parseRemaining scheme (host ++ '?'.toUInt8 :: query) = ⟨scheme, host, [], [], []⟩ := by
  have isQuery : indexOf (host ++ '?'.toUInt8 :: query) (literal "?") = host.length :=
    indexOf_here noQuestion query
  have isPath : indexOf (host ++ '?'.toUInt8 :: query) (literal "/") = -1 ∨
      host.length < indexOf (host ++ '?'.toUInt8 :: query) (literal "/") :=
    (indexOf_later (by decide) noSlash query).imp And.right And.right
  have isFragment : indexOf (host ++ '?'.toUInt8 :: query) (literal "#") = -1 := by
    apply indexOf_none
    rw [List.mem_append, List.mem_cons, not_or, not_or]
    exact ⟨noHash, by decide, free⟩
  -- the query is cut at the position -1 of the fragment
  rw [parseRemaining, isQuery, isFragment, if_neg (by omega), if_neg (by omega), if_pos (by omega),
    substring_front]
  rfl

theorem parseRemaining_host_query_fragment (noSlash : '/'.toUInt8 ∉ host)
    (noQuestion : '?'.toUInt8 ∉ host) (noHash : '#'.toUInt8 ∉ host) {query : CString}
    (free : '#'.toUInt8 ∉ query) (fragment : CString) :
    parseRemaining scheme (host ++ '?'.toUInt8 :: (query ++ '#'.toUInt8 :: fragment)) =
      ⟨scheme, host, [], query, fragment⟩ := by
  have isQuery : indexOf (host ++ '?'.toUInt8 :: (query ++ '#'.toUInt8 :: fragment)) (literal "?") =
      host.length := indexOf_here noQuestion _
  have isPath : indexOf (host ++ '?'.toUInt8 :: (query ++ '#'.toUInt8 :: fragment)) (literal "/") =
      -1 ∨ host.length <
        indexOf (host ++ '?'.toUInt8 :: (query ++ '#'.toUInt8 :: fragment)) (literal "/") :=
    (indexOf_later (by decide) noSlash _).imp And.right And.right
  have freeHere : '#'.toUInt8 ∉ host ++ '?'.toUInt8 :: query := by
    rw [List.mem_append, List.mem_cons, not_or, not_or]
    exact ⟨noHash, by decide, free⟩
  have isFragment : indexOf (host ++ '?'.toUInt8 :: (query ++ '#'.toUInt8 :: fragment))
      (literal "#") = (host.length + (query.length + 1) : Nat) := by
    have isHere := indexOf_here freeHere fragment
    rwa [List.append_assoc, List.cons_append, List.length_append, List.length_cons] at isHere
  have isCut := @substring_between (host ++ ['?'.toUInt8]) query ('#'.toUInt8 :: fragment)
    (host.length + 1) (host.length + (query.length + 1) : Nat) (by simp) (by simp; omega)
  have isBack := substring_behind (host ++ '?'.toUInt8 :: query) fragment '#'.toUInt8
  rw [List.append_assoc, List.singleton_append] at isCut
  have isLength : (host ++ '?'.toUInt8 :: query).length = host.length + (query.length + 1) :=
    List.length_append
  rw [isLength, List.append_assoc, List.cons_append] at isBack
  rw [parseRemaining, isQuery, isFragment, if_neg (by omega), if_neg (by omega), if_pos (by omega),
    if_pos (by omega), substring_front, isCut, isBack]

end Host

section Path

variable {scheme host path : CString}

theorem indexOf_path (noSlash : '/'.toUInt8 ∉ host) (starts : path.head? = some '/'.toUInt8)
    (s : CString) : indexOf (host ++ (path ++ s)) (literal "/") = host.length := by
  rw [List.head?_eq_some_iff] at starts
  rcases starts with ⟨rest, rfl⟩
  exact indexOf_here noSlash (rest ++ s)

theorem length_path (starts : path.head? = some '/'.toUInt8) : 0 < path.length := by
  rw [List.head?_eq_some_iff] at starts
  rcases starts with ⟨rest, rfl⟩
  exact Nat.succ_pos _

theorem parseRemaining_path (noSlash : '/'.toUInt8 ∉ host)
    (starts : path.head? = some '/'.toUInt8) (noQuestion : '?'.toUInt8 ∉ host ++ path)
    (noHash : '#'.toUInt8 ∉ host ++ path) :
    parseRemaining scheme (host ++ path) = ⟨scheme, host, path, [], []⟩ := by
  have isPath := indexOf_path noSlash starts []
  have isQuery : indexOf (host ++ path) (literal "?") = -1 := indexOf_none noQuestion
  have isFragment : indexOf (host ++ path) (literal "#") = -1 := indexOf_none noHash
  rw [List.append_nil] at isPath
  rw [parseRemaining, isPath, isQuery, isFragment, if_neg (by omega), if_pos (by omega),
    if_neg (by omega), if_neg (by omega), substring_front, substring_back]

theorem parseRemaining_path_query (noSlash : '/'.toUInt8 ∉ host)
    (starts : path.head? = some '/'.toUInt8) (noQuestion : '?'.toUInt8 ∉ host ++ path)
    (noHash : '#'.toUInt8 ∉ host ++ path) (query : CString) :
    parseRemaining scheme (host ++ (path ++ '?'.toUInt8 :: query)) =
      ⟨scheme, host, path, query, []⟩ := by
  have notEmpty := length_path starts
  have isPath := indexOf_path noSlash starts ('?'.toUInt8 :: query)
  have isQuery : indexOf (host ++ (path ++ '?'.toUInt8 :: query)) (literal "?") =
      (host.length + path.length : Nat) := by
    have isHere := indexOf_here noQuestion query
    rwa [List.append_assoc, List.length_append] at isHere
  have isFragment : indexOf (host ++ (path ++ '?'.toUInt8 :: query)) (literal "#") = -1 ∨
      (host.length + path.length : Nat) <
        indexOf (host ++ (path ++ '?'.toUInt8 :: query)) (literal "#") := by
    have isBehind := @indexOf_later _ '?'.toUInt8 (host ++ path) (by decide) noHash query
    rw [List.append_assoc, List.length_append] at isBehind
    exact isBehind.imp And.right And.right
  have inPath : ((host.length + path.length : Nat) : Int) - host.length = path.length := by omega
  rw [parseRemaining, isPath, isQuery, if_neg (by omega), if_pos (by omega), if_neg (by omega),
    if_pos (by omega), inPath, substring_front, substring_back, substring_front, substring_behind]

theorem parseRemaining_path_fragment (noSlash : '/'.toUInt8 ∉ host)
    (starts : path.head? = some '/'.toUInt8) (noQuestion : '?'.toUInt8 ∉ host ++ path)
    (noHash : '#'.toUInt8 ∉ host ++ path) (fragment : CString) :
    parseRemaining scheme (host ++ (path ++ '#'.toUInt8 :: fragment)) =
      if '?'.toUInt8 ∈ fragment then ⟨scheme, host, path, [], fragment⟩
      else ⟨scheme, host, path ++ '#'.toUInt8 :: fragment, [], []⟩ := by
  have notEmpty := length_path starts
  have isPath := indexOf_path noSlash starts ('#'.toUInt8 :: fragment)
  have isFragment : indexOf (host ++ (path ++ '#'.toUInt8 :: fragment)) (literal "#") =
      (host.length + path.length : Nat) := by
    have isHere := indexOf_here noHash fragment
    rwa [List.append_assoc, List.length_append] at isHere
  have inPath : ((host.length + path.length : Nat) : Int) - host.length = path.length := by omega
  have isQuery := @indexOf_later _ '#'.toUInt8 (host ++ path) (by decide) noQuestion fragment
  rw [List.append_assoc, List.length_append] at isQuery
  rcases isQuery with ⟨notIn, isQuery⟩ | ⟨isIn, isQuery⟩
  · change indexOf _ (literal "?") = _ at isQuery
    rw [if_neg notIn, parseRemaining, isPath, isFragment, isQuery, if_neg (by omega),
      if_pos (by omega), if_neg (by omega), if_neg (by omega), substring_front, substring_back]
  · change _ < indexOf _ (literal "?") at isQuery
    rw [if_pos isIn, parseRemaining, isPath, isFragment, if_neg (by omega), if_pos (by omega),
      if_pos (by omega), inPath, substring_front, substring_back, substring_front,
      substring_behind]

end Path

/-- Exactly when the components of a URI are recovered from its text. -/
theorem parse_text_iff (c : Components) : parse c.text = c.parts ↔ c.Recovered := by
  rcases c with ⟨scheme, host, path, query, fragment, one, ⟨noSlash, noQuestion, noHash⟩, starts,
    ⟨pathQuestion, pathHash⟩, free⟩
  rw [parse_text]
  rcases starts with rfl | starts
  · cases query with
    | none => cases fragment with
      | none =>
          have isParsed := @parseRemaining_host scheme _ noSlash noQuestion noHash
          simp [Components.remaining, Components.behind, Components.parts, Components.Recovered,
            isParsed]
      | some fragment =>
          have isParsed := @parseRemaining_host_fragment scheme _ noSlash noQuestion noHash fragment
          simp [Components.remaining, Components.behind, Components.parts, Components.Recovered,
            isParsed]
    | some query =>
      change '#'.toUInt8 ∉ query at free
      cases fragment with
      | none =>
          have isParsed := @parseRemaining_host_query scheme _ noSlash noQuestion noHash _ free
          simp [Components.remaining, Components.behind, Components.parts, Components.Recovered,
            isParsed, eq_comm]
      | some fragment =>
          have isParsed := @parseRemaining_host_query_fragment scheme _ noSlash noQuestion noHash _
            free fragment
          simp [Components.remaining, Components.behind, Components.parts, Components.Recovered,
            isParsed]
  · have notEmpty := List.ne_nil_of_length_pos (length_path starts)
    have freeQuestion : '?'.toUInt8 ∉ host ++ path := by
      rw [List.mem_append, not_or]
      exact ⟨noQuestion, pathQuestion⟩
    have freeHash : '#'.toUInt8 ∉ host ++ path := by
      rw [List.mem_append, not_or]
      exact ⟨noHash, pathHash⟩
    cases query with
    | none => cases fragment with
      | none =>
          have isParsed := @parseRemaining_path scheme _ _ noSlash starts freeQuestion freeHash
          simp [Components.remaining, Components.behind, Components.parts, Components.Recovered,
            isParsed, notEmpty]
      | some fragment =>
          have isParsed := @parseRemaining_path_fragment scheme _ _ noSlash starts freeQuestion
            freeHash fragment
          by_cases isIn : '?'.toUInt8 ∈ fragment <;>
          simp [Components.remaining, Components.behind, Components.parts, Components.Recovered,
            isParsed, notEmpty, isIn]
    | some query =>
        have isParsed := @parseRemaining_path_query scheme _ _ noSlash starts freeQuestion
            freeHash (query ++ Components.behind '#' fragment)
        cases fragment <;>
        simp [Components.remaining, Components.behind, Components.parts, Components.Recovered,
          notEmpty] at isParsed ⊢ <;> simp [isParsed]

/-- The text of `http://h/p#f`, whose fragment stands behind a path. -/
def pathAndFragment : Components where
  scheme := literal "http"
  host := literal "h"
  path := literal "/p"
  query := none
  fragment := some (literal "f")
  oneScheme := by decide
  hostFree := by decide
  pathStarts := Or.inr rfl
  pathFree := by decide
  queryFree := by decide

/-- The fragment stays a part of the path. -/
theorem parse_pathAndFragment : ¬ ∀ c : Components, parse c.text = c.parts := by
  intro recovered
  have isRecovered := recovered pathAndFragment
  revert isRecovered
  decide

end Tinox.Formats.Uri
