import Sigil.Gate.Fate
import Sigil.Verify.Authorisation

/-! # What a governed call may do

`Permitted` is the condition under which a call executes the wrapped function, in terms of the
client, the task and the answers of the world. A permitted call executes it once; every other call
does not execute it.
-/
set_option autoImplicit false

namespace Sigil.Gate

variable {V X : Type}

/-- Preflight answered with an object of this verdict. -/
def Verdict (answer : HttpAnswer) (verdict : String) (kvs : List (PyKey × PyVal)) : Prop :=
  answer.json? 200 = some (.dict kvs) ∧ kvs.lookup (.str "verdict") = some (.str verdict)

def approvalIdOf (kvs : List (PyKey × PyVal)) : PyVal :=
  (kvs.lookup (.str "approval_id")).getD .none

section Permitted

variable (h : Host) (S : Script V X) (c : SigilClient) (task : SigilTaskContext) (tool : Tool)
  (m : Moment)

/-- No kill is in force. -/
structure Live : Prop where
  notRevoked : S.isRevoked m.asked c.agentId (strOr task.taskId "") = false
  killSwitch : c.killSwitchFailMode = .opened ∨ S.isKillSwitchHealthy = true

/-- The local checks: no kill, and a valid token. -/
structure Admitted : Prop extends Live S c task m where
  token : task.biscuitToken.isNone = false
  verified : ∃ vr, verifyTask h c task.biscuitToken tool S.utcNow = .ok vr ∧ vr.ok = true

/-- The approval gate: requested, polled to `"approved"`, and redeemed. -/
structure Approved : Prop where
  requested : ∃ kvs, Verdict S.preflight "approve" kvs ∧ (approvalIdOf kvs).truthy = true
  polled : Polled h S c m "approved"
  redeemed : (grantOf h S.redeem).isSome = true

/-- The conditions under which a call executes the wrapped function. A preflight without a JSON
response of status 200 is one that raised. -/
structure Permitted : Prop extends Admitted h S c task tool m where
  cleared : tool.riskTier.isHighRisk = false ∨ (∃ kvs, Verdict S.preflight "allow" kvs) ∨
    (S.preflight.json? 200 = none ∧ c.failMode = .opened) ∨ Approved h S c m

end Permitted

/-- Of the registry, only the answer to the call's one revocation question matters. -/
theorem Permitted.withRegistry {h : Host} {S : Script V X} {c : SigilClient}
    {task : SigilTaskContext} {tool : Tool} {m : Moment} (hp : Permitted h S c task tool m)
    (isRevoked : ℕ → String → String → Bool)
    (hrevoked : isRevoked m.asked c.agentId (strOr task.taskId "") = false) :
    Permitted h (S.withRegistry isRevoked) c task tool m where
  notRevoked := hrevoked
  killSwitch := hp.killSwitch
  token := hp.token
  verified := hp.verified
  cleared := by
    rcases hp.cleared with hlow | hallow | hopen | happroved
    · exact Or.inl hlow
    · exact Or.inr (Or.inl hallow)
    · exact Or.inr (Or.inr (Or.inl hopen))
    · exact Or.inr (Or.inr (Or.inr
        ⟨happroved.requested, happroved.polled.withRegistry isRevoked, happroved.redeemed⟩))

/-! ## Verdicts -/

theorem verdict_iff (kvs : List (PyKey × PyVal)) (verdict : String) (hv : verdict ≠ "deny") :
    ((kvs.lookup (.str "verdict")).getD .none).orElse (.str "deny") = .str verdict ↔
      kvs.lookup (.str "verdict") = some (.str verdict) ∧ verdict ≠ "" := by
  unfold PyVal.orElse
  cases hl : kvs.lookup (.str "verdict") with
  | none => simp [hv.symm]
  | some v =>
    rw [Option.getD_some]
    split
    · next ht =>
      constructor
      · rintro rfl
        exact ⟨rfl, (PyVal.truthy_str verdict).mp ht⟩
      · rintro ⟨hv', -⟩
        exact Option.some.inj hv'
    · next ht =>
      constructor
      · intro hd
        exact absurd (PyVal.str.inj hd).symm hv
      · rintro ⟨hv', hne⟩
        cases hv'
        exact absurd ((PyVal.truthy_str verdict).mpr hne) ht

/-- The verdict as the source reads it: `verdict.get("verdict") or "deny"`. -/
theorem ruleVerdict_eq (h : Host) (kvs : List (PyKey × PyVal)) (v : PyVal)
    (hv : ((kvs.lookup (.str "verdict")).getD .none).orElse (.str "deny") = v) :
    (v = .str "allow" ∧ ruleVerdict h kvs = .cleared false) ∨
    (v = .str "approve" ∧ (approvalIdOf kvs).truthy = true ∧
      ruleVerdict h kvs = .pending ((approvalIdOf kvs).toStr h)) ∨
    ((v = .str "approve" → (approvalIdOf kvs).truthy = false) ∧ v ≠ .str "allow" ∧
      ∃ reason, ruleVerdict h kvs = .refused .buffer reason) := by
  have hrule : ruleVerdict h kvs =
      if v.isStr "deny" then .refused .buffer
        (((kvs.lookup (.str "denied_reason")).getD .none).orElse (.str "policy_deny"))
      else if v.isStr "approve" then
        if (approvalIdOf kvs).truthy then .pending ((approvalIdOf kvs).toStr h)
        else .refused .buffer (.str "approval_service_unavailable")
      else if v.isStr "allow" then .cleared false
      else .refused .buffer (.str "unknown_verdict") := by
    rw [← hv]
    rfl
  rw [hrule]
  have hstr : ∀ s, v.isStr s = true ↔ v = .str s := PyVal.isStr_iff v
  by_cases hdeny : v.isStr "deny" = true
  · rw [if_pos hdeny, (hstr "deny").mp hdeny]
    exact Or.inr (Or.inr ⟨by simp, by simp, _, rfl⟩)
  rw [if_neg hdeny]
  by_cases happrove : v.isStr "approve" = true
  · rw [if_pos happrove]
    cases hid : (approvalIdOf kvs).truthy with
    | true => exact Or.inr (Or.inl ⟨(hstr "approve").mp happrove, rfl, rfl⟩)
    | false =>
      refine Or.inr (Or.inr ⟨fun _ => rfl, ?_, _, rfl⟩)
      rw [(hstr "approve").mp happrove]
      simp
  rw [if_neg happrove]
  by_cases hallow : v.isStr "allow" = true
  · exact Or.inl ⟨(hstr "allow").mp hallow, if_pos hallow⟩
  · refine Or.inr (Or.inr ⟨fun ha => absurd ((hstr "approve").mpr ha) happrove, ?_, _, if_neg hallow⟩)
    exact fun ha => hallow ((hstr "allow").mpr ha)

/-! ## Rulings -/

inductive PreflightRuled (h : Host) (c : SigilClient) (answer : HttpAnswer) : Ruling → Prop
  | allow (kvs : List (PyKey × PyVal)) (hv : Verdict answer "allow" kvs) :
      PreflightRuled h c answer (.cleared false)
  | approve (kvs : List (PyKey × PyVal)) (hv : Verdict answer "approve" kvs)
      (hid : (approvalIdOf kvs).truthy = true) :
      PreflightRuled h c answer (.pending ((approvalIdOf kvs).toStr h))
  | failOpen (hv : answer.json? 200 = none) (hmode : c.failMode = .opened) :
      PreflightRuled h c answer (.cleared true)
  | refused (sink : Sink) (reason : PyVal) (hallow : ∀ kvs, ¬ Verdict answer "allow" kvs)
      (happrove : ∀ kvs, Verdict answer "approve" kvs → (approvalIdOf kvs).truthy = false)
      (hmode : answer.json? 200 = none → c.failMode = .closed)
      (hdict : ∀ v, answer.json? 200 = some v → v.isDict = true) :
      PreflightRuled h c answer (.refused sink reason)
  | crashed (v : PyVal) (hv : answer.json? 200 = some v) (hdict : v.isDict = false) :
      PreflightRuled h c answer (.crashed .attributeError)

theorem rulePreflight_ruled (h : Host) (c : SigilClient) (answer : HttpAnswer) :
    PreflightRuled h c answer (rulePreflight h c answer) := by
  unfold rulePreflight
  cases hj : answer.json? 200 with
  | none =>
    cases hm : c.failMode with
    | closed =>
      refine .refused _ _ ?_ ?_ (fun _ => hm) ?_
      · rintro kvs ⟨hv, -⟩
        cases hj.symm.trans hv
      · rintro kvs ⟨hv, -⟩
        cases hj.symm.trans hv
      · intro v hv
        cases hj.symm.trans hv
    | opened => exact .failOpen hj hm
  | some v =>
    cases hd : v.isDict with
    | false =>
      have hcrash := PreflightRuled.crashed (h := h) (c := c) v hj hd
      cases v with
      | dict kvs => cases hd
      | _ => exact hcrash
    | true =>
      cases v with
      | dict kvs =>
        have hallow := verdict_iff kvs "allow" (by decide)
        have happrove := verdict_iff kvs "approve" (by decide)
        rcases ruleVerdict_eq h kvs _ rfl with ⟨hv, hr⟩ | ⟨hv, hid, hr⟩ | ⟨hid, hv, reason, hr⟩
        · simp only [hr]
          exact .allow kvs ⟨hj, (hallow.mp hv).1⟩
        · simp only [hr]
          exact .approve kvs ⟨hj, (happrove.mp hv).1⟩ hid
        · simp only [hr]
          refine .refused _ _ ?_ ?_ ?_ ?_
          · rintro kvs' ⟨hj', hl⟩
            cases hj.symm.trans hj'
            exact hv (hallow.mpr ⟨hl, by decide⟩)
          · rintro kvs' ⟨hj', hl⟩
            cases hj.symm.trans hj'
            exact hid (happrove.mpr ⟨hl, by decide⟩)
          · intro hnone
            cases hj.symm.trans hnone
          · intro v hv'
            cases hj.symm.trans hv'
            rfl
      | _ => cases hd

inductive Ruled (h : Host) (S : Script V X) (c : SigilClient) (task : SigilTaskContext)
    (tool : Tool) (m : Moment) : Ruling → Prop
  | killed (reason : PyVal) (hlive : ¬ Live S c task m) :
      Ruled h S c task tool m (.refused .buffer reason)
  | tokenless (hlive : Live S c task m) (htoken : task.biscuitToken.isNone = true) :
      Ruled h S c task tool m (.unaudited (.str "token_invalid"))
  | unverifiable (e : PyError) (hlive : Live S c task m) (htoken : task.biscuitToken.isNone = false)
      (he : verifyTask h c task.biscuitToken tool S.utcNow = .error e) :
      Ruled h S c task tool m (.crashed e)
  | invalid (reason : PyVal) (vr : Verify.VerifyResult)
      (htoken : task.biscuitToken.isNone = false)
      (hvr : verifyTask h c task.biscuitToken tool S.utcNow = .ok vr) (hok : vr.ok = false) :
      Ruled h S c task tool m (.refused .buffer reason)
  | lowRisk (hadm : Admitted h S c task tool m) (hlow : tool.riskTier.isHighRisk = false) :
      Ruled h S c task tool m (.cleared false)
  | highRisk (r : Ruling) (hadm : Admitted h S c task tool m)
      (hhigh : tool.riskTier.isHighRisk = true) (hr : PreflightRuled h c S.preflight r) :
      Ruled h S c task tool m r

theorem rule_ruled (h : Host) (S : Script V X) (c : SigilClient) (task : SigilTaskContext)
    (g : Governed) (m : Moment) (hagent : g.agentId = c.agentId)
    (htask : g.taskId = strOr task.taskId "") :
    Ruled h S c task g.tool m (ruling h S c task g m) := by
  unfold ruling rule
  simp only [Script.hearing, hagent, htask]
  cases hrev : S.isRevoked m.asked c.agentId (strOr task.taskId "") with
  | true =>
    refine .killed _ ?_
    intro hlive
    rw [hlive.notRevoked] at hrev
    cases hrev
  | false =>
    rw [if_neg Bool.false_ne_true]
    split
    · next hkill =>
      refine .killed _ ?_
      rintro ⟨-, hopened | hhealthy⟩
      · cases hkill.1.symm.trans hopened
      · cases hkill.2.symm.trans hhealthy
    · next hkill =>
      have hlive : Live S c task m := ⟨hrev, by
        cases hmode : c.killSwitchFailMode with
        | opened => exact Or.inl rfl
        | closed =>
          refine Or.inr ?_
          rw [← Bool.not_eq_false]
          exact fun hsick => hkill ⟨hmode, hsick⟩⟩
      unfold ruleToken
      cases htok : task.biscuitToken.isNone with
      | true => exact .tokenless hlive htok
      | false =>
        cases hv : verifyTask h c task.biscuitToken g.tool S.utcNow with
        | error e => exact .unverifiable e hlive htok hv
        | ok vr =>
          cases hok : vr.ok with
          | false =>
            simp only [hok, Bool.false_eq_true, if_false]
            exact .invalid _ vr htok hv hok
          | true =>
            have hadm : Admitted h S c task g.tool m := ⟨hlive, htok, vr, hv, hok⟩
            simp only [hok, Bool.false_eq_true, if_false, if_true]
            cases hrisk : g.tool.riskTier.isHighRisk with
            | false => exact .lowRisk hadm hrisk
            | true => exact .highRisk _ hadm hrisk (rulePreflight_ruled h c S.preflight)

theorem ruling_of_admitted {h : Host} {S : Script V X} {c : SigilClient} {task : SigilTaskContext}
    {g : Governed} {m : Moment} (hagent : g.agentId = c.agentId)
    (htask : g.taskId = strOr task.taskId "") (hadm : Admitted h S c task g.tool m)
    (hhigh : g.tool.riskTier.isHighRisk = true) :
    ruling h S c task g m = rulePreflight h c S.preflight := by
  obtain ⟨⟨hrev, hkill⟩, htok, vr, hvr, hok⟩ := hadm
  have hlive : ¬ (c.killSwitchFailMode = .closed ∧ S.isKillSwitchHealthy = false) := by
    rintro ⟨hclosed, hsick⟩
    rcases hkill with hopened | hhealthy
    · cases hclosed.symm.trans hopened
    · cases hsick.symm.trans hhealthy
  unfold ruling rule ruleToken
  simp only [Script.hearing, hagent, htask, hrev, htok, hvr, hok, hhigh, Bool.false_eq_true,
    if_neg hlive, if_false, if_true]

/-! ## The decision -/

theorem fated_executed_iff_permitted (h : Host) (S : Script V X) (c : SigilClient)
    (task : SigilTaskContext) (g : Governed) (m : Moment) (hagent : g.agentId = c.agentId)
    (htask : g.taskId = strOr task.taskId "") :
    (∃ failOpen grant, Fated h S c task g m (.executed failOpen grant)) ↔
      Permitted h S c task g.tool m := by
  have hruled := rule_ruled h S c task g m hagent htask
  simp only [fated_executed_iff]
  constructor
  · rintro ⟨failOpen, grant, ⟨hr, -⟩ | ⟨-, id, hr, hpolled, hsome, hgrant⟩⟩
    · rw [hr] at hruled
      cases hruled with
      | lowRisk hadm hlow => exact ⟨hadm, Or.inl hlow⟩
      | highRisk _ hadm _ hpre =>
        cases hpre with
        | allow kvs hv => exact ⟨hadm, Or.inr (Or.inl ⟨kvs, hv⟩)⟩
        | failOpen hv hmode => exact ⟨hadm, Or.inr (Or.inr (Or.inl ⟨hv, hmode⟩))⟩
    · rw [hr] at hruled
      cases hruled with
      | highRisk _ hadm _ hpre =>
        cases hpre with
        | approve kvs hv hid =>
          rw [← hgrant] at hsome
          exact ⟨hadm, Or.inr (Or.inr (Or.inr ⟨⟨kvs, hv, hid⟩, hpolled, hsome⟩))⟩
  · rintro ⟨hadm, hcleared⟩
    generalize ruling h S c task g m = r at hruled ⊢
    cases hruled with
    | killed _ hlive => exact absurd hadm.toLive hlive
    | tokenless _ htoken => cases htoken.symm.trans hadm.token
    | unverifiable e _ _ he =>
      obtain ⟨vr, hvr, -⟩ := hadm.verified
      cases he.symm.trans hvr
    | invalid _ vr _ hvr hok =>
      obtain ⟨vr', hvr', hok'⟩ := hadm.verified
      cases hvr.symm.trans hvr'
      cases hok.symm.trans hok'
    | lowRisk => exact ⟨false, none, Or.inl ⟨rfl, rfl⟩⟩
    | highRisk _ _ hhigh hpre =>
      cases hpre with
      | allow => exact ⟨false, none, Or.inl ⟨rfl, rfl⟩⟩
      | failOpen => exact ⟨true, none, Or.inl ⟨rfl, rfl⟩⟩
      | approve kvs hv =>
        rcases hcleared with hlow | ⟨kvs', hv'⟩ | ⟨hnone, -⟩ | ⟨-, hpolled, hredeemed⟩
        · cases hlow.symm.trans hhigh
        · cases hv.1.symm.trans hv'.1
          exact absurd (hv.2.symm.trans hv'.2) (by simp)
        · cases hnone.symm.trans hv.1
        · exact ⟨false, _, Or.inr ⟨rfl, _, rfl, hpolled, hredeemed, rfl⟩⟩
      | refused _ _ hallow happrove hmode =>
        rcases hcleared with hlow | ⟨kvs, hv⟩ | ⟨hnone, hopened⟩ | ⟨⟨kvs, hv, hid⟩, -, -⟩
        · cases hlow.symm.trans hhigh
        · exact absurd hv (hallow kvs)
        · cases (hmode hnone).symm.trans hopened
        · cases (happrove kvs hv).symm.trans hid
      | crashed v hv hdict =>
        rcases hcleared with hlow | ⟨kvs, hv', -⟩ | ⟨hnone, -⟩ | ⟨⟨kvs, ⟨hv', -⟩, -⟩, -, -⟩
        · cases hlow.symm.trans hhigh
        · cases hv.symm.trans hv'
          cases hdict
        · cases hnone.symm.trans hv
        · cases hv.symm.trans hv'
          cases hdict

theorem meets_executions {S : Script V X} {g : Governed} {mode : Mode} {call : CallArgs}
    {promptEntropy : UInt64} {m : Moment} {R : Dialogue.Run Question (Answer V X) (Exc X) V Moment}
    {fate : Fate} (hm : Meets S g mode call promptEntropy m R fate) :
    ((∃ failOpen grant, fate = .executed failOpen grant) ∧ executions R.events = [(mode, call)]) ∨
    ((¬ ∃ failOpen grant, fate = .executed failOpen grant) ∧ executions R.events = []) := by
  cases fate with
  | refused => exact Or.inr ⟨by simp, hm.executions⟩
  | unaudited => exact Or.inr ⟨by simp, hm.executions⟩
  | crashed => exact Or.inr ⟨by simp, hm.executions⟩
  | executed failOpen grant => exact Or.inl ⟨⟨failOpen, grant, rfl⟩, hm.executions⟩

/-- A permitted call executes the wrapped function once, any other call does not. -/
theorem wrapper_executions (h : Host) (S : Script V X) (c : SigilClient)
    (task : SigilTaskContext) (d : Decorator) (mode : Mode) (tool : Tool) (call : CallArgs)
    (hargs : (call.raw.argsHash h).isSome = true) (fuel : ℕ) (hfuel : pollFuel c ≤ fuel)
    (m : Moment) :
    (Permitted h S c task tool m ∧
      executions (S.play (wrapper d mode h (some (c, task)) tool call fuel) m).events =
        [(mode, call)]) ∨
    (¬ Permitted h S c task tool m ∧
      executions (S.play (wrapper d mode h (some (c, task)) tool call fuel) m).events = []) := by
  obtain ⟨ah, hah⟩ := Option.isSome_iff_exists.mp hargs
  obtain ⟨fate, hfated, hmeets⟩ := wrapper_play S h c task d mode tool call ah hah fuel hfuel m
  have hpermitted := fated_executed_iff_permitted h S c task (d.governed c task tool call ah) m
    rfl rfl
  have htool : (d.governed c task tool call ah).tool = tool := rfl
  rw [htool] at hpermitted
  rw [← hpermitted]
  rcases meets_executions hmeets with ⟨⟨failOpen, grant, rfl⟩, hexec⟩ | ⟨hother, hexec⟩
  · exact Or.inl ⟨⟨failOpen, grant, hfated⟩, hexec⟩
  · refine Or.inr ⟨?_, hexec⟩
    rintro ⟨failOpen, grant, hexecuted⟩
    exact hother ⟨failOpen, grant, hfated.unique hexecuted⟩

/-- **The gate is closed unless permitted.** A decorated function is called at most once, and it is
called exactly when the call is permitted. -/
theorem executes_iff_permitted (h : Host) (S : Script V X) (c : SigilClient)
    (task : SigilTaskContext) (d : Decorator) (mode : Mode) (tool : Tool) (call : CallArgs)
    (hargs : (call.raw.argsHash h).isSome = true) (fuel : ℕ) (hfuel : pollFuel c ≤ fuel)
    (m : Moment) :
    (executions (S.play (wrapper d mode h (some (c, task)) tool call fuel) m).events).length ≤ 1 ∧
      (executions (S.play (wrapper d mode h (some (c, task)) tool call fuel) m).events ≠ [] ↔
        Permitted h S c task tool m) := by
  rcases wrapper_executions h S c task d mode tool call hargs fuel hfuel m with
    ⟨hperm, hexec⟩ | ⟨hperm, hexec⟩
  · rw [hexec]
    exact ⟨le_rfl, fun _ => hperm, fun _ => List.cons_ne_nil _ _⟩
  · rw [hexec]
    exact ⟨Nat.zero_le 1, fun hne => absurd rfl hne, fun h => absurd h hperm⟩

/-! ## A call that waits for an approval -/

section Sample

open Verify (sampleHost sampleKeyring authorityText authorityBlock authorityReading
  authorityReading_signed)

theorem sampleToken_ne : "sdk" ≠ "" := by decide

def sampleClient : SigilClient where
  baseUrl := "http://sigil-core:8120"
  internalToken := "sdk"
  internalToken_ne := sampleToken_ne
  serviceAccount := "sigil-python-sdk"
  tenantId := "t"
  agentId := "a1"
  serviceAccountId := ""
  failMode := .closed
  killSwitchFailMode := .opened
  timeout := .finite 5
  approvalTimeout := 300
  approvalTimeout_pos := by norm_num
  approvalPollInterval := 2
  approvalPollInterval_pos := by norm_num
  biscuitKeyring := sampleKeyring
  activeKid := ""
  redisUrlConfigured := true

def sampleTask : SigilTaskContext where
  toolAllowlist := ["a.b"]
  agentIdOverride := none
  serviceAccountIdOverride := none
  ttlSeconds := 3600
  taskId := some "k1"
  biscuitToken := .str authorityText.token
  effectiveTools := ["a.b"]

def sampleTool : Tool := ⟨"a", "b", .critical⟩

def noArgs : CallArgs := ⟨[], []⟩

def sampleGoverned : Governed :=
  Decorator.instrumentedTool.governed sampleClient sampleTask sampleTool noArgs
    "97fcdad9fe31227a9ec60e519ff7635ac71941c55b77e585c908db1fa6406030"

/-- Preflight asks for an approval, which is pending, then approved, and redeemed. -/
def sampleScript : Script ℕ String where
  isRevoked := fun _ _ _ => false
  isKillSwitchHealthy := true
  utcNow := ⟨true, 0⟩
  uuid4 := "k1"
  issue := .response 201 (some (.dict [(.str "biscuit_token", .str authorityText.token)]))
  preflight := .response 200
    (some (.dict [(.str "verdict", .str "approve"), (.str "approval_id", .str "ap1")]))
  status := fun n => .response 200
    (some (.dict [(.str "status", .str (if n = 0 then "pending" else "approved"))]))
  redeem := .response 200 (some (.dict [(.str "revocation_id", .str "r1")]))
  outcome := .ok 7
  duration := 1 / 2
  latency := fun _ => 0
  latency_nonneg := fun _ => le_rfl
  overshoot := fun _ => 0
  overshoot_nonneg := fun _ => le_rfl

theorem sampleTask_verified :
    verifyTask sampleHost sampleClient sampleTask.biscuitToken sampleTool sampleScript.utcNow =
      .ok (Verify.acceptance sampleHost [authorityBlock]) :=
  ((Verify.verifyLocal_accepts_iff authorityReading sampleKeyring none (some "a.b") (some "t") none
    ⟨true, 0⟩ _).mpr ⟨authorityReading_signed, by decide +kernel, rfl⟩).1

theorem sampleScript_polled : Polled sampleHost sampleScript sampleClient .start "approved" := by
  refine .again 0 _ _ rfl ?_ ?_
  · norm_num [sampleScript, sampleClient]
  · exact .settled 1 _ _ rfl

theorem sampleScript_permitted (override : Option String) :
    Permitted sampleHost sampleScript sampleClient { sampleTask with agentIdOverride := override }
      sampleTool .start where
  notRevoked := rfl
  killSwitch := Or.inl rfl
  token := rfl
  verified := ⟨_, sampleTask_verified, rfl⟩
  cleared := Or.inr (Or.inr (Or.inr {
    requested := ⟨_, ⟨rfl, rfl⟩, rfl⟩
    polled := sampleScript_polled
    redeemed := rfl }))

def sampleCall (S : Script ℕ String) : Dialogue.Run Question (Answer ℕ String) (Exc String) ℕ Moment :=
  S.play (wrapper .instrumentedTool .sync sampleHost (some (sampleClient, sampleTask)) sampleTool
    noArgs (pollFuel sampleClient)) .start

theorem sampleCall_executions (S : Script ℕ String)
    (hS : Permitted sampleHost S sampleClient sampleTask sampleTool .start) :
    executions (sampleCall S).events = [(.sync, noArgs)] := by
  rcases wrapper_executions sampleHost S sampleClient sampleTask .instrumentedTool .sync sampleTool
    noArgs rfl (pollFuel sampleClient) le_rfl .start with ⟨-, hexec⟩ | ⟨hperm, -⟩
  · exact hexec
  · exact absurd hS hperm

theorem executes_iff_permitted_sample : executions (sampleCall sampleScript).events ≠ [] :=
  (executes_iff_permitted sampleHost sampleScript sampleClient sampleTask .instrumentedTool .sync
    sampleTool noArgs rfl (pollFuel sampleClient) le_rfl .start).2.mpr
    (sampleScript_permitted none)

end Sample

end Sigil.Gate
