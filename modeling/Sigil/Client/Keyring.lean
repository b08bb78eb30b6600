import Sigil.Client.Client
import Sigil.Verify.Authorisation

/-! # The keyring from the environment

`_parse_biscuit_keyring` binds the entries of `SIGIL_BISCUIT_PUBKEYS` while it decodes them, so an
entry that does not decode leaves the ones before it bound; the single-key variables are consulted
after that. `malformed_pubkeys_iff` says when a malformed variable has no effect all the same.
-/
set_option autoImplicit false

namespace Sigil

open Verify (Keyring tableHost)

/-! ## The entries of the variable -/

def pubkeysJson (environ : Environ) : String := (environ "SIGIL_BISCUIT_PUBKEYS").getD ""

/-- The environment without the variable. -/
def withoutPubkeys (environ : Environ) : Environ := fun var =>
  if var = "SIGIL_BISCUIT_PUBKEYS" then none else environ var

/-- The entries of the object, if the text is that of one. -/
def loadedEntries (h : Host) (text : String) : List (PyKey × PyVal) :=
  if text = "" then [] else match loadsText h text with
    | some (.dict entries) => entries
    | _ => []

/-- What `keyring[kid] = base64.b64decode(b64_key)` binds; `none` if it raises. -/
def entryKey : PyKey × PyVal → Option (String × List UInt8)
  | (.str kid, .str b64Key) => (b64decode b64Key.toList).map fun key => (kid, key)
  | _ => none

/-- The bindings made before the first entry that raises. -/
def decodedBefore : List (PyKey × PyVal) → List (String × List UInt8)
  | [] => []
  | entry :: entries => match entryKey entry with
    | some binding => binding :: decodedBefore entries
    | none => []

/-- Parsing the variable fails: the text is not that of an object, or an entry does not decode. -/
def Malformed (h : Host) (text : String) : Prop :=
  text ≠ "" ∧ ¬ ∃ entries, loadsText h text = some (.dict entries) ∧
    ∀ entry ∈ entries, (entryKey entry).isSome = true

/-- The binding the single-key variables give. -/
def singleEntry (environ : Environ) : Option (String × List UInt8) :=
  let singleKey := (environ "SIGIL_BISCUIT_PUBKEY").getD ""
  let singleKid := (environ "SIGIL_BISCUIT_KID").getD ""
  if singleKey ≠ "" ∧ singleKid ≠ "" then
    (b64decode singleKey.toList).map fun key => (singleKid, key)
  else none

/-- A binding is added if its key id is new. -/
def addSingle (keyring : Keyring) : Option (String × List UInt8) → Keyring
  | some (kid, key) => if kid ∈ keyring.keys then keyring else keyring.assign kid key
  | none => keyring

theorem fillKeyring_cons (keyring : Keyring) (entry : PyKey × PyVal)
    (entries : List (PyKey × PyVal)) :
    fillKeyring keyring (entry :: entries) = match entryKey entry with
      | some b => fillKeyring (keyring.assign b.1 b.2) entries
      | none => keyring := by
  obtain ⟨k, v⟩ := entry
  cases k with
  | str kid =>
    cases v with
    | str b64Key =>
      rw [fillKeyring, entryKey]
      cases b64decode b64Key.toList <;> rfl
    | _ => rfl
  | _ => rfl

theorem fillKeyring_eq (keyring : Keyring) (entries : List (PyKey × PyVal)) :
    fillKeyring keyring entries =
      (decodedBefore entries).foldl (fun keyring b => keyring.assign b.1 b.2) keyring := by
  induction entries generalizing keyring with
  | nil => rfl
  | cons entry entries ih =>
    rw [fillKeyring_cons, decodedBefore]
    cases entryKey entry with
    | none => rfl
    | some b => exact ih (keyring.assign b.1 b.2)

theorem addSingle_singleEntry (environ : Environ) (keyring : Keyring) :
    addSingle keyring (singleEntry environ) =
      let singleKey := (environ "SIGIL_BISCUIT_PUBKEY").getD ""
      let singleKid := (environ "SIGIL_BISCUIT_KID").getD ""
      if singleKey ≠ "" ∧ singleKid ≠ "" ∧ singleKid ∉ keyring.keys then
        match b64decode singleKey.toList with
        | some key => keyring.assign singleKid key
        | none => keyring
      else keyring := by
  unfold singleEntry
  generalize (environ "SIGIL_BISCUIT_PUBKEY").getD "" = singleKey
  generalize (environ "SIGIL_BISCUIT_KID").getD "" = singleKid
  dsimp only
  by_cases hsingle : singleKey ≠ "" ∧ singleKid ≠ ""
  · rw [if_pos hsingle]
    cases hdec : b64decode singleKey.toList with
    | none => simp [addSingle]
    | some key => by_cases hmem : singleKid ∈ keyring.keys <;> simp [addSingle, hmem, hsingle]
  · rw [if_neg hsingle, if_neg (fun hall => hsingle ⟨hall.1, hall.2.1⟩)]
    rfl

theorem parseBiscuitKeyring_eq (h : Host) (environ : Environ) :
    parseBiscuitKeyring h environ =
      addSingle (fillKeyring OrderedDict.empty (loadedEntries h (pubkeysJson environ)))
        (singleEntry environ) := by
  rw [addSingle_singleEntry]
  unfold parseBiscuitKeyring loadedEntries pubkeysJson
  dsimp only
  by_cases hempty : (environ "SIGIL_BISCUIT_PUBKEYS").getD "" = ""
  · rw [if_pos hempty, if_pos hempty]
    rfl
  · rw [if_neg hempty, if_neg hempty]
    cases loadsText h ((environ "SIGIL_BISCUIT_PUBKEYS").getD "") with
    | none => rfl
    | some v => cases v <;> rfl

/-! ## Distinct key ids -/

theorem eq_entry_of_entryKey (entry : PyKey × PyVal) (b : String × List UInt8)
    (h : entryKey entry = some b) : entry.1 = .str b.1 := by
  obtain ⟨k, v⟩ := entry
  cases k with
  | str kid =>
    cases v with
    | str b64Key =>
      obtain ⟨key, -, rfl⟩ := Option.map_eq_some_iff.mp h
      rfl
    | _ => cases h
  | _ => cases h

theorem decodedBefore_mem (entries : List (PyKey × PyVal)) (b : String × List UInt8)
    (hb : b ∈ decodedBefore entries) : ∃ entry ∈ entries, entryKey entry = some b := by
  induction entries with
  | nil => exact absurd hb List.not_mem_nil
  | cons entry entries ih =>
    rw [decodedBefore] at hb
    cases hkey : entryKey entry with
    | none =>
      rw [hkey] at hb
      exact absurd hb List.not_mem_nil
    | some c =>
      rw [hkey, List.mem_cons] at hb
      rcases hb with rfl | hb
      · exact ⟨entry, List.mem_cons_self, hkey⟩
      · obtain ⟨entry', hmem, heq⟩ := ih hb
        exact ⟨entry', List.mem_cons_of_mem entry hmem, heq⟩

theorem decodedBefore_nodup (entries : List (PyKey × PyVal))
    (hentries : (entries.map Prod.fst).Nodup) : ((decodedBefore entries).map Prod.fst).Nodup := by
  induction entries with
  | nil => exact List.nodup_nil
  | cons entry entries ih =>
    rw [List.map_cons, List.nodup_cons] at hentries
    rw [decodedBefore]
    cases hkey : entryKey entry with
    | none => exact List.nodup_nil
    | some b =>
      refine List.nodup_cons.mpr ⟨?_, ih hentries.2⟩
      intro hmem
      obtain ⟨c, hc, hcb⟩ := List.mem_map.mp hmem
      obtain ⟨entry', hentry', hkey'⟩ := decodedBefore_mem entries c hc
      have hfst := eq_entry_of_entryKey entry b hkey
      have hfst' := eq_entry_of_entryKey entry' c hkey'
      apply hentries.1
      rw [hfst, ← hcb, ← hfst']
      exact List.mem_map_of_mem hentry'

/-- An object's entries are bound in their order, up to the first that raises. -/
theorem entries_fillKeyring (entries : List (PyKey × PyVal))
    (hentries : (entries.map Prod.fst).Nodup) :
    (fillKeyring OrderedDict.empty entries).entries = decodedBefore entries := by
  have hnodup := decodedBefore_nodup entries hentries
  rw [fillKeyring_eq]
  exact OrderedDict.entries_foldl_assign OrderedDict.empty (decodedBefore entries) hnodup

/-! ## A malformed variable -/

theorem keyring_ext (k k' : Keyring) (h : k.entries = k'.entries) : k = k' := by
  cases k
  cases k'
  simpa using h

theorem entries_assign_of_not_mem (keyring : Keyring) (kid : String) (key : List UInt8)
    (hkid : kid ∉ keyring.keys) : (keyring.assign kid key).entries = keyring.entries ++ [(kid, key)] :=
  OrderedDict.assignEntries_of_not_mem kid key keyring.entries hkid

theorem addSingle_empty (single : Option (String × List UInt8)) :
    (addSingle OrderedDict.empty single).entries = single.toList := by
  cases single with
  | none => rfl
  | some b =>
    rw [addSingle, if_neg (by simp), entries_assign_of_not_mem _ _ _ (by simp)]
    rfl

/-- The single binding makes up for a keyring that holds nothing else. -/
theorem addSingle_eq_iff (keyring : Keyring) (single : Option (String × List UInt8)) :
    addSingle keyring single = addSingle OrderedDict.empty single ↔
      ∀ b ∈ keyring.entries, single = some b := by
  have hentries : addSingle keyring single = addSingle OrderedDict.empty single ↔
      (addSingle keyring single).entries = single.toList := by
    rw [← addSingle_empty single]
    exact ⟨congrArg OrderedDict.entries, keyring_ext _ _⟩
  rw [hentries]
  cases single with
  | none =>
    rw [addSingle, Option.toList_none, List.eq_nil_iff_forall_not_mem]
    simp
  | some c =>
    by_cases hmem : c.1 ∈ keyring.keys
    · rw [addSingle, if_pos hmem, Option.toList_some]
      constructor
      · intro heq b hb
        rw [heq, List.mem_singleton] at hb
        rw [hb]
      · intro hall
        have hnodup := keyring.nodup
        obtain ⟨b, hb, -⟩ := List.mem_map.mp hmem
        have hrep := List.eq_replicate_of_mem fun d hd => (Option.some.inj (hall d hd)).symm
        rw [hrep, List.map_replicate] at hnodup
        have hle := List.nodup_replicate.mp hnodup
        have hpos := List.length_pos_of_mem hb
        rw [hrep, show keyring.entries.length = 1 by omega]
        rfl
    · rw [addSingle, if_neg hmem, entries_assign_of_not_mem keyring c.1 c.2 hmem,
        Option.toList_some]
      constructor
      · intro heq
        have hnil : keyring.entries = [] := by simpa using heq
        simp [hnil]
      · intro hall
        have hnil : keyring.entries = [] := by
          apply List.eq_nil_iff_forall_not_mem.mpr
          intro b hb
          rw [Option.some.inj (hall b hb)] at hmem
          exact hmem (List.mem_map_of_mem hb)
        rw [hnil]
        rfl

theorem singleEntry_withoutPubkeys (environ : Environ) :
    singleEntry (withoutPubkeys environ) = singleEntry environ := rfl

theorem ignored_iff (h : Host) (environ : Environ)
    (hobject : ((loadedEntries h (pubkeysJson environ)).map Prod.fst).Nodup) :
    parseBiscuitKeyring h environ = parseBiscuitKeyring h (withoutPubkeys environ) ↔
      ∀ b ∈ decodedBefore (loadedEntries h (pubkeysJson environ)), singleEntry environ = some b := by
  rw [parseBiscuitKeyring_eq, parseBiscuitKeyring_eq, singleEntry_withoutPubkeys,
    ← entries_fillKeyring _ hobject]
  exact addSingle_eq_iff _ _

/-! ## The order of the entries -/

/-- Every order of the entries meets the condition exactly when no entry decodes to a binding of its
own. -/
theorem decodedBefore_perm_iff (entries : List (PyKey × PyVal))
    (single : Option (String × List UInt8)) :
    (∀ entries', entries.Perm entries' → ∀ b ∈ decodedBefore entries', single = some b) ↔
      ∀ entry ∈ entries, ∀ b, entryKey entry = some b → single = some b := by
  constructor
  · intro hall entry hentry b hb
    obtain ⟨before, after, rfl⟩ := List.append_of_mem hentry
    apply hall _ List.perm_middle b
    rw [decodedBefore, hb]
    exact List.mem_cons_self
  · intro hall entries' hperm b hb
    obtain ⟨entry, hentry, hkey⟩ := decodedBefore_mem entries' b hb
    exact hall entry (hperm.mem_iff.mpr hentry) b hkey

theorem decodedBefore_all (entries : List (PyKey × PyVal))
    (hall : ∀ entry ∈ entries, (entryKey entry).isSome = true) :
    decodedBefore entries = entries.filterMap entryKey := by
  induction entries with
  | nil => rfl
  | cons entry entries ih =>
    rw [List.forall_mem_cons] at hall
    obtain ⟨b, hb⟩ := Option.isSome_iff_exists.mp hall.1
    rw [decodedBefore, hb, List.filterMap_cons_some hb, ← ih hall.2]

theorem addSingle_perm (keyring keyring' : Keyring) (single : Option (String × List UInt8))
    (h : keyring.entries.Perm keyring'.entries) :
    (addSingle keyring single).entries.Perm (addSingle keyring' single).entries := by
  cases single with
  | none => exact h
  | some b =>
    have hkeys : b.1 ∈ keyring.keys ↔ b.1 ∈ keyring'.keys := (h.map Prod.fst).mem_iff
    by_cases hmem : b.1 ∈ keyring.keys
    · rw [addSingle, addSingle, if_pos hmem, if_pos (hkeys.mp hmem)]
      exact h
    · have hmem' : b.1 ∉ keyring'.keys := fun hb => hmem (hkeys.mpr hb)
      rw [addSingle, addSingle, if_neg hmem, if_neg hmem', entries_assign_of_not_mem _ _ _ hmem,
        entries_assign_of_not_mem _ _ _ hmem']
      exact h.append_right _

/-- When all entries decode, their order does not matter to what a key id is bound to. -/
theorem get?_parseBiscuitKeyring_perm (h : Host) (environ environ' : Environ)
    (hobject : ((loadedEntries h (pubkeysJson environ)).map Prod.fst).Nodup)
    (hsingle : singleEntry environ = singleEntry environ')
    (hperm : (loadedEntries h (pubkeysJson environ)).Perm (loadedEntries h (pubkeysJson environ')))
    (hall : ∀ entry ∈ loadedEntries h (pubkeysJson environ), (entryKey entry).isSome = true)
    (kid : String) :
    (parseBiscuitKeyring h environ).get? kid = (parseBiscuitKeyring h environ').get? kid := by
  have hobject' := (hperm.map Prod.fst).nodup_iff.mp hobject
  have hall' : ∀ entry ∈ loadedEntries h (pubkeysJson environ'), (entryKey entry).isSome = true :=
    fun entry hentry => hall entry (hperm.mem_iff.mpr hentry)
  rw [parseBiscuitKeyring_eq, parseBiscuitKeyring_eq, ← hsingle]
  apply OrderedDict.get?_eq_of_perm
  apply addSingle_perm
  rw [entries_fillKeyring _ hobject, entries_fillKeyring _ hobject', decodedBefore_all _ hall,
    decodedBefore_all _ hall']
  exact hperm.filterMap entryKey

theorem all_of_not_malformed (h : Host) (text : String) (hgood : ¬ Malformed h text) :
    ∀ entry ∈ loadedEntries h text, (entryKey entry).isSome = true := by
  unfold loadedEntries
  by_cases hempty : text = ""
  · rw [if_pos hempty]
    exact fun entry hentry => absurd hentry List.not_mem_nil
  · rw [if_neg hempty]
    have hload := not_not.mp (fun hno => hgood ⟨hempty, hno⟩)
    obtain ⟨entries, hload, hall⟩ := hload
    rw [hload]
    exact hall

/-- **A malformed variable is ignored if nothing was bound before it failed.** When parsing fails,
the keyring is the one without the variable exactly when every binding made until then is the one
that the single-key variables give. It is so in every order of the entries exactly when no entry
decodes to another binding. When parsing succeeds, the order does not matter. -/
theorem malformed_pubkeys_iff (h : Host) (environ : Environ)
    (hobject : ((loadedEntries h (pubkeysJson environ)).map Prod.fst).Nodup) :
    (Malformed h (pubkeysJson environ) →
      (parseBiscuitKeyring h environ = parseBiscuitKeyring h (withoutPubkeys environ) ↔
        ∀ b ∈ decodedBefore (loadedEntries h (pubkeysJson environ)),
          singleEntry environ = some b)) ∧
    ((∀ entries', (loadedEntries h (pubkeysJson environ)).Perm entries' →
        ∀ b ∈ decodedBefore entries', singleEntry environ = some b) ↔
      ∀ entry ∈ loadedEntries h (pubkeysJson environ), ∀ b, entryKey entry = some b →
        singleEntry environ = some b) ∧
    (¬ Malformed h (pubkeysJson environ) → ∀ environ' : Environ,
      singleEntry environ = singleEntry environ' →
      (loadedEntries h (pubkeysJson environ)).Perm (loadedEntries h (pubkeysJson environ')) →
        ∀ kid, (parseBiscuitKeyring h environ).get? kid =
          (parseBiscuitKeyring h environ').get? kid) := by
  refine ⟨fun _ => ignored_iff h environ hobject, decodedBefore_perm_iff _ _, ?_⟩
  intro hgood environ' hsingle hperm kid
  exact get?_parseBiscuitKeyring_perm h environ environ' hobject hsingle hperm
    (all_of_not_malformed h _ hgood) kid

/-! ## Two entries, one of which does not decode -/

def halfText : String := "\x7b\"a\":\"AAAA\",\"b\":\"A\"\x7d"

def swappedHalfText : String := "\x7b\"b\":\"A\",\"a\":\"AAAA\"\x7d"

def goodEntry : PyKey × PyVal := (.str "a", .str "AAAA")

def badEntry : PyKey × PyVal := (.str "b", .str "A")

def halfHost : Host :=
  { tableHost [] [] [] fun _ => "" with
    jsonLoads := fun bytes =>
      if bytes = utf8 halfText then some (.dict [goodEntry, badEntry])
      else if bytes = utf8 swappedHalfText then some (.dict [badEntry, goodEntry])
      else none }

def pubkeysOnly (text : String) : Environ := fun var =>
  if var = "SIGIL_BISCUIT_PUBKEYS" then some text else none

theorem loadsText_half :
    loadsText halfHost halfText = some (.dict [goodEntry, badEntry]) := by
  rw [loadsText, if_neg (by decide)]
  exact if_pos rfl

theorem loadedEntries_half :
    loadedEntries halfHost (pubkeysJson (pubkeysOnly halfText)) = [goodEntry, badEntry] := by
  show loadedEntries halfHost halfText = [goodEntry, badEntry]
  rw [loadedEntries, if_neg (by decide), loadsText_half]

theorem malformed_half : Malformed halfHost halfText := by
  refine ⟨by decide, ?_⟩
  rintro ⟨entries, hload, hall⟩
  rw [loadsText_half] at hload
  cases hload
  have hbad := hall badEntry (by simp)
  exact absurd hbad (by decide)

theorem malformed_pubkeys_iff_half :
    parseBiscuitKeyring halfHost (pubkeysOnly halfText) =
        parseBiscuitKeyring halfHost (withoutPubkeys (pubkeysOnly halfText)) ↔
      ∀ b ∈ decodedBefore (loadedEntries halfHost halfText),
        singleEntry (pubkeysOnly halfText) = some b :=
  (malformed_pubkeys_iff halfHost (pubkeysOnly halfText)
    (by rw [loadedEntries_half]; decide)).1 malformed_half

/-- The entry before the one that does not decode is bound, the entry behind it is not. -/
theorem half_parsed_keyring :
    Malformed halfHost halfText ∧
      (parseBiscuitKeyring halfHost (pubkeysOnly halfText)).get? "a" = some [0, 0, 0] ∧
      (parseBiscuitKeyring halfHost (withoutPubkeys (pubkeysOnly halfText))).get? "a" = none ∧
      (parseBiscuitKeyring halfHost (pubkeysOnly swappedHalfText)).get? "a" = none :=
  ⟨malformed_half, by decide +kernel, by decide +kernel, by decide +kernel⟩

end Sigil
