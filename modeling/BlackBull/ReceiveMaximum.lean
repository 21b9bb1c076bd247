import BlackBull.EffectOutcomes
import BlackBull.MqttPackets

/-!
# The Receive Maximum of a CONNECT

The property takes two octets, so a CONNECT that `decodePacket` returns declares a
window of at most 65535 packets.
-/

namespace BlackBull.Mqtt

open ByteString

def Properties.WindowFits (properties : Properties) : Prop :=
  ∀ declared,properties.number? .receiveMaximum=some declared → declared≤65535

variable {ps : Properties} {dt : Bytes} {cn : MQTTConnect}

theorem windowFits_of_get? {p' : Properties} (h : ps.WindowFits)
    (hg : p'.get? .receiveMaximum=ps.get? .receiveMaximum) : p'.WindowFits := by
  intro d hd
  rw [Properties.number?,hg] at hd
  exact h d hd

theorem windowFits_set (h : ps.WindowFits) {key : PropertyKey}
    (hk : key≠.receiveMaximum) (v : PropertyValue) : Properties.WindowFits (ps.set key v) :=
  windowFits_of_get? h (by rw [Dict.get?_set,if_neg hk])

theorem windowFits_addPair (h : ps.WindowFits) {key : PropertyKey}
    (hk : key≠.receiveMaximum) (p : Text × Text) : (ps.addPair key p).WindowFits := by
  unfold Properties.addPair
  split
  · exact windowFits_set h hk _
  · exact windowFits_set h hk _

theorem windowFits_uint16 (ps : Properties) (dt : Bytes) (pos : ℕ) :
    Properties.WindowFits (ps.set .receiveMaximum
      (.number (ofBigEndian (slice dt pos (pos+2))))) := by
  intro d hd
  rw [Properties.number?,Dict.get?_set,if_pos rfl] at hd
  obtain rfl := Option.some.inj hd
  have hl : (slice dt pos (pos+2)).length≤2 := by simp [slice]
  have hlt := ofBigEndian_lt (slice dt pos (pos+2))
  have hp : 256^(slice dt pos (pos+2)).length≤256^2 := Nat.pow_le_pow_right (by decide) hl
  omega

theorem decodeProperty_windowFits {pos s : ℕ} (h : ps.WindowFits)
    {r : Properties × ℕ} (hr : decodeProperty dt pos s ps=.ok r) : r.1.WindowFits := by
  rw [decodeProperty,bind_eq_ok_iff] at hr
  obtain ⟨i,_,hr⟩ := hr
  cases hk : PropertyKey.ofIdentifier i with
  | none => simp [hk,throw,throwThe,MonadExceptOf.throw] at hr
  | some key =>
    simp only [hk] at hr
    split at hr
    · next hp =>
      simp only [bind_eq_ok_iff] at hr
      obtain ⟨_,_,_,_,hr⟩ := hr
      obtain rfl := Except.ok.inj hr
      refine windowFits_addPair h ?_ _
      rintro rfl
      exact absurd hp (by decide)
    · simp only [bind_eq_ok_iff] at hr
      obtain ⟨v,hv,hr⟩ := hr
      obtain rfl := Except.ok.inj hr
      by_cases hm : key=.receiveMaximum
      · subst hm
        obtain rfl := Except.ok.inj hv
        exact windowFits_uint16 ps dt (pos+1)
      · exact windowFits_set h hm _

theorem decodePropertiesFrom_windowFits {s r pos : ℕ} {re : Properties}
    (h : ps.WindowFits) (hr : decodePropertiesFrom dt s r pos ps=.ok re) : re.WindowFits := by
  induction r generalizing pos ps with
  | zero => exact Except.ok.inj hr ▸ h
  | succ r ih =>
    rw [decodePropertiesFrom] at hr
    split at hr
    · rw [bind_eq_ok_iff] at hr
      obtain ⟨ro,hro,hre⟩ := hr
      exact ih (decodeProperty_windowFits h hro) hre
    · exact Except.ok.inj hr ▸ h

theorem windowFits_nil : Properties.WindowFits [] := by
  intro d hd
  cases hd

theorem decodeProperties_windowFits {o : ℕ} {r : Properties × ℕ}
    (hr : decodeProperties dt o=.ok r) : r.1.WindowFits := by
  rw [decodeProperties,bind_eq_ok_iff] at hr
  obtain ⟨p,_,hr⟩ := hr
  dsimp only at hr
  split at hr
  · cases hr
  · simp only [bind_eq_ok_iff] at hr
    obtain ⟨ps,hp,hr⟩ := hr
    obtain rfl := Except.ok.inj hr
    exact decodePropertiesFrom_windowFits windowFits_nil hp

theorem MQTTConnect.eq_of_make {m : ConnectFields} (h : MQTTConnect.make m=.ok cn) :
    cn.toConnectFields=m := by
  unfold make at h
  split at h
  · exact Except.ok.inj h ▸ rfl
  · cases h

theorem decodeConnect_windowFits {b : Bytes} (h : decodeConnect b=.ok cn) :
    cn.properties.WindowFits := by
  unfold decodeConnect at h
  simp only [bind_eq_ok_iff] at h
  obtain ⟨name,_,h⟩ := h
  split at h
  · cases h
  · simp only [bind_eq_ok_iff] at h
    obtain ⟨l,_,flags,_,h⟩ := h
    split at h
    · simp only [bind_eq_ok_iff] at h
      obtain ⟨ps,hp,_,_,_,_,_,_,_,_,hm⟩ := h
      rw [MQTTConnect.eq_of_make hm]
      exact decodeProperties_windowFits hp
    · simp only [bind_eq_ok_iff] at h
      obtain ⟨ps,hp,_,_,_,_,_,_,_,_,hm⟩ := h
      rw [MQTTConnect.eq_of_make hm,← Except.ok.inj hp]
      exact windowFits_nil

theorem decodeBody_eq_connect {b : Bytes} {f : ℕ} {ty : PacketType}
    (h : decodeBody b f ty=.ok (.connect cn)) : decodeConnect b=.ok cn := by
  cases ty <;> simp_all [decodeBody,map_eq_ok_iff]

theorem decodePacket_windowFits {c : ℕ}
    (h : decodePacket dt=.ok (.connect cn,c)) : cn.properties.WindowFits := by
  unfold decodePacket at h
  split at h
  · cases h
  · rw [bind_eq_ok_iff] at h
    obtain ⟨fb,_,h⟩ := h
    cases ht : PacketType.ofCode (fb.toNat / 16) with
    | none => simp [ht,throw,throwThe,MonadExceptOf.throw] at h
    | some type =>
      simp only [ht] at h
      split at h
      · cases h
      · rw [decodeRemaining,bind_eq_ok_iff] at h
        obtain ⟨r,_,h⟩ := h
        dsimp only at h
        split at h
        · cases h
        · split at h
          · next p hb =>
            obtain ⟨rfl,-⟩ := Prod.mk.inj (Except.ok.inj h)
            exact decodeConnect_windowFits (decodeBody_eq_connect hb)
          · cases h

end BlackBull.Mqtt
