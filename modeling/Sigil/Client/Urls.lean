import Sigil.Client.Wire
import Sigil.Python.Utf8
import Mathlib.Data.List.TakeDrop

/-! # The paths of requests

An approval id is sigil-core's, and becomes a segment of a path. Whatever it is, the segment is one
that is read back as this id and cannot be taken for anything else: `readPath` is how a server reads a
path, and it reads every path of the SDK as the route it was written for. Only the ids `.` and `..`
are quoted as dot segments, which do not survive until the path is sent.
-/
set_option autoImplicit false

namespace Sigil

/-! ## Percent-encoding -/

/-- A character that is not percent-encoded. -/
def isUnreserved (c : Char) : Bool := c.isAlphanum || decide (c ∈ ['_', '.', '-', '~'])

def quoteByte (b : UInt8) : List Char :=
  if isUnreserved (Char.ofNat b.toNat) then [Char.ofNat b.toNat]
  else ['%', hexUpper (b.toNat / 16), hexUpper b.toNat]

def hexValue (c : Char) : Option ℕ :=
  if '0' ≤ c ∧ c ≤ '9' then some (c.toNat - 48)
  else if 'A' ≤ c ∧ c ≤ 'F' then some (c.toNat - 55)
  else if 'a' ≤ c ∧ c ≤ 'f' then some (c.toNat - 87)
  else none

/-- The bytes a percent-encoded text stands for. -/
def percentDecode : List Char → Option (List UInt8)
  | [] => some []
  | '%' :: hi :: lo :: cs => do
    let hi ← hexValue hi
    let lo ← hexValue lo
    let bytes ← percentDecode cs
    some (UInt8.ofNat (16 * hi + lo) :: bytes)
  | c :: cs => if c = '%' then none else (percentDecode cs).map (UInt8.ofNat c.toNat :: ·)

def unquoteUrl (cs : List Char) : Option String := (percentDecode cs).bind decodeUtf8

theorem quoteUrl_toList (s : String) : (quoteUrl s).toList = (utf8 s).flatMap quoteByte := by
  unfold quoteUrl
  rw [String.toList_ofList]
  refine List.flatMap_congr fun b _ => ?_
  simp [quoteByte, isUnreserved]

theorem isUnreserved_bounds (n : ℕ) (hn : n < 256) (h : isUnreserved (Char.ofNat n) = true) :
    Char.ofNat n ≠ '%' ∧ (Char.ofNat n).toNat = n := by
  revert n
  decide +kernel

theorem hexValue_digits (n : ℕ) (hn : n < 256) :
    hexValue (hexUpper (n / 16)) = some (n / 16) ∧ hexValue (hexUpper n) = some (n % 16) := by
  revert n
  decide +kernel

theorem percentDecode_plain (c : Char) (hc : c ≠ '%') (cs : List Char) :
    percentDecode (c :: cs) = (percentDecode cs).map (UInt8.ofNat c.toNat :: ·) := by
  rw [percentDecode]
  · exact if_neg hc
  · intro hi lo rest heq
    exact absurd heq hc

theorem percentDecode_quoteByte (b : UInt8) (cs : List Char) :
    percentDecode (quoteByte b ++ cs) = (percentDecode cs).map (b :: ·) := by
  have hb : b.toNat < 256 := UInt8.toNat_lt_size b
  unfold quoteByte
  by_cases hplain : isUnreserved (Char.ofNat b.toNat) = true
  · obtain ⟨hne, hcode⟩ := isUnreserved_bounds b.toNat hb hplain
    rw [if_pos hplain, List.singleton_append, percentDecode_plain _ hne, hcode, UInt8.ofNat_toNat]
  · obtain ⟨hhi, hlo⟩ := hexValue_digits b.toNat hb
    have hbyte : 16 * (b.toNat / 16) + b.toNat % 16 = b.toNat := by omega
    rw [if_neg hplain]
    simp only [List.cons_append, List.nil_append, percentDecode, hhi, hlo, Option.bind_eq_bind,
      Option.bind_some, hbyte, UInt8.ofNat_toNat]
    cases percentDecode cs <;> rfl

/-- **What is quoted is unquoted to what it was.** -/
theorem unquoteUrl_quoteUrl (s : String) : unquoteUrl (quoteUrl s).toList = some s := by
  have hbytes (bs : List UInt8) : percentDecode (bs.flatMap quoteByte) = some bs := by
    induction bs with
    | nil => rfl
    | cons b bs ih =>
      rw [List.flatMap_cons, percentDecode_quoteByte, ih]
      rfl
  rw [unquoteUrl, quoteUrl_toList, hbytes]
  exact decodeUtf8_utf8 s

/-! ## Characters -/

/-- A character of a segment of a path. -/
def isSegmentChar (c : Char) : Bool := isUnreserved c || c = '%'

theorem segmentChar_quoteByte (n : ℕ) (hn : n < 256) :
    ∀ c ∈ quoteByte (UInt8.ofNat n), isSegmentChar c = true := by
  have hall : ((List.range 256).all fun n =>
      (quoteByte (UInt8.ofNat n)).all isSegmentChar) = true := by decide +kernel
  exact List.all_eq_true.mp (List.all_eq_true.mp hall n (List.mem_range.mpr hn))

theorem segmentChar_quoteUrl (s : String) (c : Char) (hc : c ∈ (quoteUrl s).toList) :
    isSegmentChar c = true := by
  rw [quoteUrl_toList] at hc
  obtain ⟨b, -, hmem⟩ := List.mem_flatMap.mp hc
  have hb : UInt8.ofNat b.toNat = b := UInt8.ofNat_toNat
  rw [← hb] at hmem
  exact segmentChar_quoteByte b.toNat (UInt8.toNat_lt_size b) c hmem

theorem slash_not_segmentChar : isSegmentChar '/' = false := by decide

theorem slash_not_mem_quoteUrl (s : String) : '/' ∉ (quoteUrl s).toList := by
  intro hc
  have hslash := segmentChar_quoteUrl s '/' hc
  rw [slash_not_segmentChar] at hslash
  cases hslash

/-! ## Reading a path -/

def approvalBase : String := "/internal/v1/sigil/toolgate/approval/"

/-- What stands behind `approval/`: the id, and perhaps `/redeem`. -/
def readApproval (cs : List Char) : Option Route :=
  match cs.span (· ≠ '/') with
  | (segment, []) => (unquoteUrl segment).map .approval
  | (segment, rest) =>
    if rest = "/redeem".toList then (unquoteUrl segment).map .redeem else none

def readPath (path : List Char) : Option Route :=
  match path.dropPrefix? approvalBase.toList with
  | some cs => readApproval cs
  | none =>
    if path = Route.issueToken.path.toList then some .issueToken
    else if path = Route.preflight.path.toList then some .preflight
    else if path = Route.logBatch.path.toList then some .logBatch
    else none

theorem span_segment (s : String) (rest : List Char) (hrest : ∀ c ∈ rest.head?, c = '/') :
    ((quoteUrl s).toList ++ rest).span (· ≠ '/') = ((quoteUrl s).toList, rest) := by
  have hsegment : ∀ c ∈ (quoteUrl s).toList, decide (c ≠ '/') = true := by
    intro c hc
    have hne : c ≠ '/' := by
      intro heq
      rw [heq] at hc
      exact slash_not_mem_quoteUrl s hc
    simpa using hne
  rw [List.span_eq_takeWhile_dropWhile, List.takeWhile_append_of_pos hsegment,
    List.dropWhile_append_of_pos hsegment]
  cases rest with
  | nil => simp
  | cons c rest =>
    have hc : c = '/' := hrest c rfl
    simp [hc]

theorem readApproval_approval (id : String) :
    readApproval (quoteUrl id).toList = some (.approval id) := by
  have hspan := span_segment id [] (by simp)
  rw [List.append_nil] at hspan
  rw [readApproval, hspan]
  simp only [unquoteUrl_quoteUrl, Option.map_some]

theorem readApproval_redeem (id : String) :
    readApproval ((quoteUrl id).toList ++ "/redeem".toList) = some (.redeem id) := by
  have hredeem : "/redeem".toList = ['/', 'r', 'e', 'd', 'e', 'e', 'm'] := rfl
  rw [readApproval, span_segment id "/redeem".toList (by rw [hredeem]; simp), hredeem]
  simp only [unquoteUrl_quoteUrl, Option.map_some, if_true]

theorem approval_path (id : String) :
    (Route.approval id).path.toList = approvalBase.toList ++ (quoteUrl id).toList := by
  have hpath : (Route.approval id).path = approvalBase ++ quoteUrl id := by
    unfold approvalBase Route.path
    with_reducible rfl
  rw [hpath]
  exact String.toList_append

theorem redeem_path (id : String) : (Route.redeem id).path.toList =
    approvalBase.toList ++ ((quoteUrl id).toList ++ "/redeem".toList) := by
  have hpath : (Route.redeem id).path = approvalBase ++ quoteUrl id ++ "/redeem" := by
    unfold approvalBase Route.path
    with_reducible rfl
  rw [hpath, ← List.append_assoc]
  exact String.toList_append.trans (congrArg (· ++ "/redeem".toList) String.toList_append)

theorem readPath_approval (cs : List Char) :
    readPath (approvalBase.toList ++ cs) = readApproval cs := by
  have hself : (approvalBase.toList == approvalBase.toList) = true := BEq.rfl
  rw [readPath, List.dropPrefix?_append_of_beq cs hself]

/-- A character of a path: it ends neither the path nor the host before it. -/
def isPathChar (c : Char) : Bool := isSegmentChar c || c = '/'

theorem pathChar_of_segment (s : String) : ∀ c ∈ (quoteUrl s).toList, isPathChar c = true := by
  intro c hc
  rw [isPathChar, segmentChar_quoteUrl s c hc, Bool.true_or]

theorem pathChar_of_all (s : String) (hs : s.toList.all isPathChar = true) :
    ∀ c ∈ s.toList, isPathChar c = true := List.all_eq_true.mp hs

/-! ## Dot segments -/

def segments (path : List Char) : List (List Char) := path.splitOnP (· = '/')

def isDotSegment (segment : List Char) : Bool := segment = ['.'] || segment = ['.', '.']

/-- A path with a segment that is removed before it is sent. -/
def Dotted (r : Route) : Prop := ∃ segment ∈ segments r.path.toList, isDotSegment segment = true

instance (r : Route) : Decidable (Dotted r) :=
  inferInstanceAs (Decidable (∃ segment ∈ segments r.path.toList, isDotSegment segment = true))

def Route.approvalId : Route → Option String
  | approval id | redeem id => some id
  | _ => none

theorem quoteUrl_injective : Function.Injective quoteUrl := by
  intro s t heq
  have hread := unquoteUrl_quoteUrl s
  rw [heq, unquoteUrl_quoteUrl] at hread
  exact (Option.some.inj hread).symm

theorem quoteUrl_dots : (quoteUrl ".").toList = ['.'] ∧ (quoteUrl "..").toList = ['.', '.'] := by
  decide +kernel

theorem dotSegment_quoteUrl (id : String) :
    isDotSegment (quoteUrl id).toList = true ↔ id = "." ∨ id = ".." := by
  have hquoted (dots : String) : (quoteUrl id).toList = (quoteUrl dots).toList ↔ id = dots := by
    rw [String.toList_inj, quoteUrl_injective.eq_iff]
  rw [isDotSegment, Bool.or_eq_true, decide_eq_true_eq, decide_eq_true_eq, ← hquoted ".",
    ← hquoted "..", quoteUrl_dots.1, quoteUrl_dots.2]

/-- The segments of a path that has an approval id. -/
theorem segments_approval (id : String) (rest : List (List Char)) (cs : List Char)
    (hcs : segments ((quoteUrl id).toList ++ cs) = (quoteUrl id).toList :: rest)
    (hrest : ∀ segment ∈ rest, isDotSegment segment = false) :
    (∃ segment ∈ segments (approvalBase.toList ++ ((quoteUrl id).toList ++ cs)),
      isDotSegment segment = true) ↔ id = "." ∨ id = ".." := by
  have hbase : approvalBase.toList =
      "/internal/v1/sigil/toolgate/approval".toList ++ '/' :: [] := by decide
  have hfront : ∀ segment ∈ segments "/internal/v1/sigil/toolgate/approval".toList,
      isDotSegment segment = false := by decide
  rw [hbase, List.append_assoc, List.cons_append, List.nil_append, segments,
    List.splitOnP_append_cons _ _ (by decide), ← dotSegment_quoteUrl]
  show (∃ segment ∈ segments _ ++ segments ((quoteUrl id).toList ++ cs), _) ↔ _
  rw [hcs]
  constructor
  · rintro ⟨segment, hmem, hdot⟩
    rcases List.mem_append.mp hmem with hmem | hmem
    · rw [hfront segment hmem] at hdot
      cases hdot
    · rcases List.mem_cons.mp hmem with rfl | hmem
      · exact hdot
      · rw [hrest segment hmem] at hdot
        cases hdot
  · intro hdot
    exact ⟨_, List.mem_append_right _ List.mem_cons_self, hdot⟩

theorem quoteUrl_no_slash (id : String) :
    ∀ c ∈ (quoteUrl id).toList, decide (c = '/') = false := by
  intro c hc
  refine decide_eq_false ?_
  rintro rfl
  exact slash_not_mem_quoteUrl id hc

theorem dotted_iff (r : Route) : Dotted r ↔ r.approvalId = some "." ∨ r.approvalId = some ".." := by
  cases r with
  | issueToken => decide
  | preflight => decide
  | logBatch => decide
  | approval id =>
    have hone : segments ((quoteUrl id).toList ++ []) = [(quoteUrl id).toList] := by
      rw [List.append_nil]
      exact List.splitOnP_eq_singleton (quoteUrl_no_slash id)
    have hdots := segments_approval id [] [] hone nofun
    rw [List.append_nil, ← approval_path] at hdots
    simpa [Dotted, Route.approvalId] using hdots
  | redeem id =>
    have htwo : segments ((quoteUrl id).toList ++ "/redeem".toList) =
        [(quoteUrl id).toList, "redeem".toList] :=
      List.splitOnP_append_cons_of_forall_mem (quoteUrl_no_slash id) '/' (by decide) _
    have hdots := segments_approval id ["redeem".toList] _ htwo (by decide)
    rw [← redeem_path] at hdots
    simpa [Dotted, Route.approvalId] using hdots

/-- **Every path is read back.** Whatever string an approval id is, the path of a request is read as
the route it was written for, with this id, and has no character that could end it. It has a dot
segment exactly if the id is `.` or `..`. -/
theorem path_read_back (r : Route) :
    readPath r.path.toList = some r ∧ (∀ c ∈ r.path.toList, isPathChar c = true) ∧
      (Dotted r ↔ r.approvalId = some "." ∨ r.approvalId = some "..") := by
  have hfront := pathChar_of_all approvalBase (by decide)
  refine ⟨?_, ?_, dotted_iff r⟩
  · cases r with
    | issueToken => decide
    | preflight => decide
    | logBatch => decide
    | approval id => rw [approval_path, readPath_approval, readApproval_approval]
    | redeem id => rw [redeem_path, readPath_approval, readApproval_redeem]
  · cases r with
    | issueToken => exact pathChar_of_all _ (by decide)
    | preflight => exact pathChar_of_all _ (by decide)
    | logBatch => exact pathChar_of_all _ (by decide)
    | approval id =>
      rw [approval_path]
      exact List.forall_mem_append.mpr ⟨hfront, pathChar_of_segment id⟩
    | redeem id =>
      rw [redeem_path]
      have hsuffix := pathChar_of_all "/redeem" (by decide)
      exact List.forall_mem_append.mpr ⟨hfront,
        List.forall_mem_append.mpr ⟨pathChar_of_segment id, hsuffix⟩⟩

example : (quoteUrl "a/../b?c=é").toList = "a%2F..%2Fb%3Fc%3D%C3%A9".toList := by decide +kernel

end Sigil
