import BlackBull.MqttFieldRoundTrip

/-!
# MQTT: what is encoded is decoded

The body of each of the fifteen packets is read back from the readers of its
fields. The fixed header is handled once for all of them, for the whole frame and
for every beginning of it.
-/

namespace BlackBull.Mqtt

open ByteString

theorem toNat_ofNat_of_lt {n : ℕ} (h : n<256) : (UInt8.ofNat n).toNat=n := by
  rw [UInt8.toNat_ofNat']
  exact Nat.mod_eq_of_lt h

/-- Without a Will the fields of one are those of a CONNECT that sets none. -/
def ConnectFields.WillNormal (m : ConnectFields) : Prop :=
  match m.willTopic with
  | none => m.willPayload=none ∧ m.willQos=0 ∧ m.willRetain=false ∧ m.willProperties=[]
  | some topic => Fits (utf8 topic) ∧ (∃ payload,m.willPayload=some payload ∧ Fits payload) ∧
      m.willQos<4 ∧ m.willProperties.Normal

structure ConnectFields.Normal (m : ConnectFields) : Prop where
  protoLevel : m.protoLevel=5
  keepAlive : m.keepAlive<65536
  properties : m.properties.Normal
  clientId : Fits (utf8 m.clientId)
  will : m.WillNormal
  username : ∀ name∈m.username,Fits (utf8 name)
  password : ∀ blob∈m.password,Fits blob

theorem connect_flags (c w r p u : Bool) (qos : Fin 4) :
    let flags := (if c then 0x02 else 0) +
      (if w then 0x04 + qos.val % 4 * 8 + (if r then 0x20 else 0) else 0) +
      (if p then 0x40 else 0)+(if u then 0x80 else 0)
    flags<256 ∧ flags.testBit 1=c ∧ flags.testBit 2=w ∧ flags.testBit 6=p ∧ flags.testBit 7=u ∧
      (w = true → flags / 8 % 4 = qos ∧ flags.testBit 5 = r) ∧
      (w = false → flags / 8 % 4 = 0 ∧ flags.testBit 5 = false) := by
  revert c w r p u qos
  decide +kernel

theorem ConnectFields.WillNormal.flags {m : ConnectFields} (h : m.WillNormal) :
    m.flags<256 ∧ m.flags.testBit 1=m.cleanStart ∧ m.flags.testBit 2=m.willTopic.isSome ∧
      m.flags.testBit 6=m.password.isSome ∧ m.flags.testBit 7=m.username.isSome ∧
      m.flags / 8 % 4 = m.willQos ∧ m.flags.testBit 5 = m.willRetain := by
  have hqo : m.willQos<4 := by
    unfold WillNormal at h
    split at h
    · rw [h.2.1]
      norm_num
    · exact h.2.2.1
  obtain ⟨hlt,hc,hw,hp,hu,hs,hun⟩ := connect_flags m.cleanStart
    m.willTopic.isSome m.willRetain m.password.isSome m.username.isSome ⟨m.willQos,hqo⟩
  refine ⟨hlt,hc,hw,hp,hu,?_⟩
  unfold WillNormal at h
  cases ht : m.willTopic with
  | none =>
    rw [ht] at h
    obtain ⟨-,hq,hr,-⟩ := h
    rw [hq,hr]
    exact hun (by rw [ht]; rfl)
  | some t => exact hs (by rw [ht]; rfl)

@[simp] theorem MQTTConnect.make_self (m : MQTTConnect) :
    MQTTConnect.make m.toConnectFields=.ok m := by
  unfold make
  split
  · rfl
  · next hr => exact absurd (hr.symm.trans m.checked) (by simp)

@[simp] theorem MQTTPublish.make_self (m : MQTTPublish) :
    MQTTPublish.make m.toPublishFields=.ok m := by
  unfold make
  split
  · rfl
  · next hr => exact absurd (hr.symm.trans m.checked) (by simp)

theorem reads_optional {α : Type} (e : α → Except Failure Bytes)
    (d : Bytes → ℕ → Except Failure (α × ℕ)) (f : Option α)
    (h : ∀ a∈f,∃ bs,e a=.ok bs ∧ Reads d bs a) :
    ∃ bs,encodeOptional e f=.ok bs ∧
      Reads (fun dt => decodeOptional f.isSome (d dt)) bs f := by
  cases f with
  | none => exact ⟨[],rfl,fun dt pos rest _ => rfl⟩
  | some a =>
    obtain ⟨bs,he,hr⟩ := h a rfl
    refine ⟨bs,he,fun dt pos rest hd => ?_⟩
    simp only [decodeOptional,Option.isSome_some,if_true,hr dt pos rest hd,ok_bind]
    rfl

theorem reads_will {m : ConnectFields} (h : m.WillNormal) :
    ∃ bs,encodeWill m=.ok bs ∧ Reads (fun d => decodeWill d 5 m.willTopic.isSome) bs
        (m.willProperties,m.willTopic,m.willPayload) := by
  unfold ConnectFields.WillNormal at h
  cases ht : m.willTopic with
  | none =>
    rw [ht] at h
    obtain ⟨hp,-,-,hpr⟩ := h
    refine ⟨[],by rw [encodeWill,ht],fun d pos rest _ => ?_⟩
    rw [hp,hpr]
    rfl
  | some t =>
    rw [ht] at h
    obtain ⟨hte,⟨p,hp,hb⟩,-,hn⟩ := h
    obtain ⟨b,hbl,-,hr⟩ := encodeProperties_of_normal hn
    refine ⟨_,by rw [encodeWill,ht]; simp only [hbl,encodeUtf8_of_fits hte,hp,
      Option.getD_some,encodeBinary,encodePrefixed_of_fits hb,ok_bind]; rfl,?_⟩
    intro d pos rest hd
    rw [List.append_assoc,List.append_assoc] at hd
    have hta := drop_past hd
    have hl := drop_past hta
    simp only [decodeWill,Option.isSome_some,if_true,ge_iff_le,le_refl,
      hr d pos _ hd,ok_bind,reads_utf8 hte d _ _ hta,reads_binary hb d _ _ hl,hp]
    simp only [List.length_append,← add_assoc]
    rfl

theorem decodeConnect_connectBody {m : MQTTConnect} (h : m.Normal) :
    ∃ body,connectBody m.toConnectFields=.ok body ∧ decodeConnect body=.ok m := by
  have hn : Fits (utf8 "MQTT".toList) := by decide +kernel
  obtain ⟨b,hb,-,hr⟩ := encodeProperties_of_normal h.properties
  obtain ⟨w,hw,hre⟩ := reads_will h.will
  obtain ⟨u,hu,hrea⟩ := reads_optional encodeUtf8 decodeUtf8 m.username
    fun name hm => ⟨_,encodeUtf8_of_fits (h.username name hm),reads_utf8 (h.username name hm)⟩
  obtain ⟨p,hp,hread⟩ := reads_optional encodeBinary decodeBinary m.password
    fun bl hm => ⟨_,encodePrefixed_of_fits (h.password bl hm),reads_binary (h.password bl hm)⟩
  have hl : appendOctet m.protoLevel=.ok [5] := by rw [h.protoLevel]; rfl
  refine ⟨_,by simp only [connectBody,encodeUtf8_of_fits hn,hl,
    toBytes_of_lt 2 h.keepAlive,hb,encodeUtf8_of_fits h.clientId,hw,hu,hp,ok_bind]; rfl,?_⟩
  generalize hbo : bigEndian 2 (utf8 "MQTT".toList).length++utf8 "MQTT".toList++_=body
  have hna := reads_utf8 hn body 0 _ hbo.symm
  have hle := drop_of_append hbo
  obtain ⟨hlt,hc,hwi,hpa,hus,hq,hret⟩ := h.will.flags
  rw [decodeConnect,hna,ok_bind]
  dsimp only
  generalize 0+(bigEndian 2 (utf8 "MQTT".toList).length++utf8 "MQTT".toList).length=pos at hle ⊢
  have hf := drop_succ hle
  have hk := drop_succ hf
  have hlen := length_of_drop hk (by simp [bigEndian])
  have hke : slice body (pos+2) (pos+4)=bigEndian 2 m.keepAlive := by simpa using slice_of_drop hk
  have hbl := drop_past hk
  rw [length_bigEndian] at hbl
  have hcl := drop_past hbl
  have hwil := drop_past hcl
  have huse := drop_past hwil
  have hpas := drop_past huse
  rw [length_bigEndian] at hlen
  rw [if_neg (by omega)]
  simp only [octetAt_of_drop hle,octetAt_of_drop hf,ok_bind,hke,
    ofBigEndian_bigEndian 2 h.keepAlive,toNat_ofNat_of_lt hlt,hc,hwi,hpa,hus,hq,hret]
  have hfi : UInt8.toNat 5=m.protoLevel := h.protoLevel.symm
  have hwillR := hre body _ _ hwil
  have huser := hrea body _ _ huse
  have hpass := hread body _ [] (by rw [List.append_nil]; exact hpas)
  rw [if_pos (by decide),hr body (pos+4) _ hbl,ok_bind,reads_utf8 h.clientId body _ _ hcl,ok_bind]
  dsimp only at hwillR huser hpass ⊢
  rw [hfi,h.protoLevel,hwillR,ok_bind,huser,ok_bind,hpass,ok_bind,← h.protoLevel]
  exact m.make_self

structure MQTTConnack.Normal (m : MQTTConnack) : Prop where
  reasonCode : m.reasonCode<256
  properties : m.properties.Normal

theorem decodeConnack_connackBody {m : MQTTConnack} (h : m.Normal) :
    ∃ body,connackBody m=.ok body ∧ decodeConnack body=.ok m := by
  obtain ⟨b,hb,-,hr⟩ := encodeProperties_of_normal h.properties
  refine ⟨_,by rw [connackBody,hb]; rfl,?_⟩
  have hbl := hr ((if m.sessionPresent then 1 else 0)::UInt8.ofNat m.reasonCode::b) 2 [] (by simp)
  have hf : (if m.sessionPresent then (1 : UInt8) else 0).toNat.testBit 0=m.sessionPresent := by
    cases m.sessionPresent <;> rfl
  simp only [decodeConnack,octetAt,List.getElem?_cons_zero,List.getElem?_cons_succ,ok_bind,
    hbl,hf,toNat_ofNat_of_lt h.reasonCode]
  rfl

structure PublishFields.Normal (m : PublishFields) : Prop where
  topic : Fits (utf8 m.topic)
  qos : m.qos<4
  packetId : if m.qos=0 then m.packetId=none else ∃ n<65536,m.packetId=some n
  properties : m.properties.Normal

theorem publish_flags (dup r : Bool) (qos : Fin 4) :
    let flags := qos.val % 4 * 2 + (if dup then 8 else 0) + (if r then 1 else 0)
    flags < 16 ∧ flags / 2 % 4 = qos ∧ flags.testBit 0 = r ∧ flags.testBit 3 = dup := by
  revert dup r qos
  decide +kernel

theorem decodePublish_publishBody {m : MQTTPublish} (h : m.Normal) :
    ∃ body,publishBody m.toPublishFields=.ok body ∧ decodePublish body m.flags=.ok m := by
  obtain ⟨b,hb,-,hr⟩ := encodeProperties_of_normal h.properties
  obtain ⟨-,hq,hre,hd⟩ : m.flags < 16 ∧ m.flags / 2 % 4 = m.qos ∧ m.flags.testBit 0 = m.retain ∧
        m.flags.testBit 3=m.dup := publish_flags m.dup m.retain ⟨m.qos,h.qos⟩
  by_cases hz : m.qos=0
  · have hid : m.packetId=none := by simpa [hz] using h.packetId
    refine ⟨_,by simp only [publishBody,encodeUtf8_of_fits h.topic,hb,hz,gt_iff_lt,
      lt_irrefl,if_false,ok_bind]; rfl,?_⟩
    generalize hbo : bigEndian 2 (utf8 m.topic).length++utf8 m.topic++_=body
    have ht := reads_utf8 h.topic body 0 _ hbo.symm
    have hbl := drop_of_append hbo
    rw [List.nil_append] at hbl
    simp only [decodePublish,ht,ok_bind,hq,hz,gt_iff_lt,lt_irrefl,if_false,
      hr body _ _ hbl,drop_past hbl,hre,hd]
    rw [← hz,← hid]
    exact m.make_self
  · have hp : m.qos > 0 := Nat.pos_of_ne_zero hz
    obtain ⟨n,hn,hid⟩ : ∃ n<65536,m.packetId=some n := by simpa [hz] using h.packetId
    refine ⟨_,by simp only [publishBody,encodeUtf8_of_fits h.topic,hb,hp,if_true,hid,
      Option.getD_some,toBytes_of_lt 2 hn,ok_bind]; rfl,?_⟩
    generalize hbo : bigEndian 2 (utf8 m.topic).length++utf8 m.topic++_=body
    have ht := reads_utf8 h.topic body 0 _ hbo.symm
    have hi := drop_of_append hbo
    have hbl := drop_past hi
    have hs := slice_of_drop hi
    rw [length_bigEndian] at hbl hs
    simp only [decodePublish,ht,ok_bind,hq,hp,if_true,hs,
      ofBigEndian_bigEndian 2 hn,hr body _ _ hbl,drop_past hbl,hre,hd]
    rw [← hid]
    exact m.make_self

theorem packetId_front {n : ℕ} (h : n<65536) {tail body : Bytes} (hb : bigEndian 2 n++tail=body) :
    body.drop 2=tail ∧ ofBigEndian (slice body 0 2)=n := by
  have hi : body.drop 0=bigEndian 2 n++tail := hb.symm
  have hd := drop_past hi
  have hs := slice_of_drop hi
  rw [length_bigEndian,zero_add] at hd hs
  exact ⟨hd,by rw [hs,ofBigEndian_bigEndian 2 h]⟩

structure PacketIdAck.Normal (m : PacketIdAck) : Prop where
  packetId : m.packetId<65536
  reasonCode : m.reasonCode<256
  properties : m.properties.Normal

theorem decodePacketIdAck_packetIdAckBody {m : PacketIdAck} (h : m.Normal) :
    ∃ body,packetIdAckBody m=.ok body ∧ decodePacketIdAck body=.ok m := by
  obtain ⟨b,hb,hne,hr⟩ := encodeProperties_of_normal h.properties
  refine ⟨_,by rw [packetIdAckBody,toBytes_of_lt 2 h.packetId,hb]; rfl,?_⟩
  generalize hbo : bigEndian 2 m.packetId++_=body
  obtain ⟨hre,hs⟩ := packetId_front h.packetId hbo
  have hbl := drop_succ hre
  have hl : body.length > 3 := by
    have hblo := List.length_pos_iff.mpr hne
    rw [← hbo,List.length_append,length_bigEndian,List.length_cons]
    omega
  rw [decodePacketIdAck,if_pos (by omega),octetAt_of_drop hre,ok_bind,if_pos hl,
    hr body 3 [] (by rw [List.append_nil]; exact hbl),hs,ok_bind,
    toNat_ofNat_of_lt h.reasonCode]
  rfl

/-- One set of options for each filter, with the QoS of the filter. -/
structure MQTTSubscribe.Normal (m : MQTTSubscribe) : Prop where
  packetId : m.packetId<65536
  properties : m.properties.Normal
  filters : ∀ subscription∈m.subscriptions,Fits (utf8 subscription.1)
  options : ∃ options,m.subscriptionOptions=some options ∧
    m.subscriptions.map Prod.snd=options.map SubscriptionOptions.qos ∧
    ∀ o∈options,o.qos<4 ∧ o.retainHandling<4

theorem SubscriptionOptions.ofOctet_octet {o : SubscriptionOptions} (hq : o.qos<4)
    (hh : o.retainHandling<4) : octet o.qos (some o)<256 ∧ ofOctet (octet o.qos (some o))=o := by
  obtain ⟨qos,nl,rap,rh⟩ := o
  have ha : ∀ (q h : Fin 4) (l r : Bool),octet q (some ⟨q,l,r,h⟩)<256 ∧
        ofOctet (octet q (some ⟨q,l,r,h⟩))=(⟨q,l,r,h⟩ : SubscriptionOptions) := by
    decide +kernel
  exact ha ⟨qos,hq⟩ ⟨rh,hh⟩ nl rap

theorem decodeSubscriptions_encode {su : List (Text × ℕ)} {op : List SubscriptionOptions}
    (hf : ∀ sub∈su,Fits (utf8 sub.1)) (hq : su.map Prod.snd=op.map SubscriptionOptions.qos)
    (ho : ∀ o∈op,o.qos<4 ∧ o.retainHandling<4) :
    ∃ bs,encodeSubscriptions su op=.ok bs ∧
      ∀ body pos r,body.drop pos=bs → bs.length≤r →
        decodeSubscriptions body r pos=.ok (su,op) := by
  induction su generalizing op with
  | nil =>
    obtain rfl : op=[] := by simpa using hq.symm
    refine ⟨[],rfl,fun body pos r hb _ => ?_⟩
    cases r with
    | zero => rfl
    | succ r =>
      have he : ¬ pos<body.length := by simpa using List.drop_eq_nil_iff.mp hb
      rw [decodeSubscriptions,if_neg he]
  | cons sub su ih =>
    obtain ⟨f,qos⟩ := sub
    cases op with
    | nil => simp at hq
    | cons o op =>
      obtain ⟨rfl,hr⟩ : qos=o.qos ∧
          su.map Prod.snd=op.map SubscriptionOptions.qos := by simpa using hq
      obtain ⟨l,hl,hre⟩ :=
        ih (fun s hm => hf s (List.mem_cons_of_mem _ hm)) hr
          fun o' hm => ho o' (List.mem_cons_of_mem _ hm)
      have hfi := hf (f,o.qos) List.mem_cons_self
      obtain ⟨hlt,hoc⟩ := SubscriptionOptions.ofOctet_octet
        (ho o List.mem_cons_self).1 (ho o List.mem_cons_self).2
      refine ⟨_,by simp only [encodeSubscriptions,encodeUtf8_of_fits hfi,List.tail_cons,
        hl,List.head?_cons,ok_bind]; rfl,?_⟩
      intro body pos r hb hro
      have hle := length_of_drop hb (by simp [bigEndian])
      have hoct := drop_past hb
      have hla := drop_succ hoct
      simp only [List.length_append,List.length_cons,length_bigEndian] at hle hro
      obtain ⟨r,rfl⟩ : ∃ n,r = n + 1 := ⟨r - 1,by omega⟩
      rw [decodeSubscriptions,if_pos (by omega),reads_utf8 hfi body pos _ hb,ok_bind]
      dsimp only
      rw [octetAt_of_drop hoct,ok_bind,toNat_ofNat_of_lt hlt,hoc,
        hre body _ r hla (by omega),ok_bind]
      rfl

theorem decodeSubscribe_subscribeBody {m : MQTTSubscribe} (h : m.Normal) :
    ∃ body,subscribeBody m=.ok body ∧ decodeSubscribe body=.ok m := by
  obtain ⟨b,hb,-,hr⟩ := encodeProperties_of_normal h.properties
  obtain ⟨o,hs,hq,ho⟩ := h.options
  obtain ⟨l,hl,hre⟩ := decodeSubscriptions_encode h.filters hq ho
  refine ⟨_,by simp only [subscribeBody,toBytes_of_lt 2 h.packetId,hb,hs,
    Option.getD_some,hl,ok_bind]; rfl,?_⟩
  generalize hbo : bigEndian 2 m.packetId++_=body
  obtain ⟨hbl,hsl⟩ := packetId_front h.packetId hbo
  have hle : l.length≤body.length := by
    rw [← hbo]
    simp only [List.length_append]
    omega
  simp only [decodeSubscribe,hsl,hr body 2 _ hbl,ok_bind,hre body _ _ (drop_past hbl) hle]
  rw [← hs]
  rfl

structure ReasonCodesAck.Normal (m : ReasonCodesAck) : Prop where
  packetId : m.packetId<65536
  reasonCodes : ∀ code∈m.reasonCodes,code<256
  properties : m.properties.Normal

theorem decodeReasonCodes_reasonCodesBody {m : ReasonCodesAck} (h : m.Normal) :
    ∃ body,reasonCodesBody m=.ok body ∧ decodeReasonCodes body=.ok m := by
  obtain ⟨b,hb,-,hr⟩ := encodeProperties_of_normal h.properties
  refine ⟨_,by rw [reasonCodesBody,toBytes_of_lt 2 h.packetId,hb]; rfl,?_⟩
  generalize hbo : bigEndian 2 m.packetId++_=body
  obtain ⟨hbl,hs⟩ := packetId_front h.packetId hbo
  have hc : (m.reasonCodes.map UInt8.ofNat).map UInt8.toNat=m.reasonCodes := by
    rw [List.map_map]
    conv_rhs => rw [← List.map_id m.reasonCodes]
    exact List.map_congr_left fun code hm => toNat_ofNat_of_lt (h.reasonCodes code hm)
  simp only [decodeReasonCodes,hs,hr body 2 _ hbl,ok_bind,drop_past hbl,hc]
  rfl

structure MQTTUnsubscribe.Normal (m : MQTTUnsubscribe) : Prop where
  packetId : m.packetId<65536
  topics : ∀ topic∈m.topics,Fits (utf8 topic)
  properties : m.properties.Normal

theorem decodeTopics_encode {top : List Text} (ht : ∀ tp∈top,Fits (utf8 tp)) :
    ∃ bs,encodeEach encodeUtf8 top=.ok bs ∧
      ∀ body pos r,body.drop pos=bs → bs.length≤r →
        decodeTopics body r pos=.ok top := by
  induction top with
  | nil =>
    refine ⟨[],rfl,fun body pos r hb _ => ?_⟩
    cases r with
    | zero => rfl
    | succ r =>
      have he : ¬ pos<body.length := by simpa using List.drop_eq_nil_iff.mp hb
      rw [decodeTopics,if_neg he]
  | cons tp top ih =>
    obtain ⟨l,hl,hr⟩ := ih fun t hm => ht t (List.mem_cons_of_mem _ hm)
    have hto := ht tp List.mem_cons_self
    refine ⟨_,by simp only [encodeEach,encodeUtf8_of_fits hto,hl,ok_bind]; rfl,?_⟩
    intro body pos r hb hro
    have hle := length_of_drop hb (by simp [bigEndian])
    have hla := drop_past hb
    simp only [List.length_append,length_bigEndian] at hle hro
    obtain ⟨r,rfl⟩ : ∃ n,r = n + 1 := ⟨r - 1,by omega⟩
    rw [decodeTopics,if_pos (by omega),reads_utf8 hto body pos _ hb,ok_bind]
    dsimp only
    rw [hr body _ r hla (by omega),ok_bind]
    rfl

theorem decodeUnsubscribe_unsubscribeBody {m : MQTTUnsubscribe} (h : m.Normal) :
    ∃ body,unsubscribeBody m=.ok body ∧ decodeUnsubscribe body=.ok m := by
  obtain ⟨b,hb,-,hr⟩ := encodeProperties_of_normal h.properties
  obtain ⟨l,hl,hre⟩ := decodeTopics_encode h.topics
  refine ⟨_,by simp only [unsubscribeBody,toBytes_of_lt 2 h.packetId,hb,hl,ok_bind]; rfl,?_⟩
  generalize hbo : bigEndian 2 m.packetId++_=body
  obtain ⟨hbl,hs⟩ := packetId_front h.packetId hbo
  have hle : l.length≤body.length := by
    rw [← hbo]
    simp only [List.length_append]
    omega
  simp only [decodeUnsubscribe,hs,hr body 2 _ hbl,ok_bind,hre body _ _ (drop_past hbl) hle]
  rfl

/-- Properties need a reason code in front of them. -/
structure ReasonAndProps.Normal (m : ReasonAndProps) : Prop where
  reasonCode : if m.properties=[] then ∀ code∈m.reasonCode,code<256
    else ∃ code<256,m.reasonCode=some code
  properties : m.properties.Normal

theorem decodeReasonAndProps_reasonAndPropsBody {m : ReasonAndProps} (h : m.Normal) :
    ∃ body,reasonAndPropsBody m=.ok body ∧ decodeReasonAndProps body=.ok m := by
  obtain ⟨b,hb,hne,hr⟩ := encodeProperties_of_normal h.properties
  by_cases he : m.reasonCode=none ∧ m.properties=[]
  · obtain ⟨rc,p⟩ := m
    obtain ⟨rfl,rfl⟩ := he
    exact ⟨[],rfl,rfl⟩
  · obtain ⟨code,hco,hs⟩ : ∃ code<256,m.reasonCode=some code := by
      have hre := h.reasonCode
      split at hre
      · next hn =>
        cases hc : m.reasonCode with
        | none => exact absurd ⟨hc,hn⟩ he
        | some code => exact ⟨code,hre code hc,rfl⟩
      · exact hre
    refine ⟨UInt8.ofNat code::b,?_,?_⟩
    · rw [reasonAndPropsBody,if_neg he,hb,hs]
      rfl
    · have hl := List.length_pos_iff.mpr hne
      have hbl := hr (UInt8.ofNat code::b) 1 [] (by simp)
      rw [decodeReasonAndProps,if_neg (by simp)]
      simp only [octetAt,List.getElem?_cons_zero,ok_bind,List.length_cons]
      rw [if_pos (by omega),hbl,toNat_ofNat_of_lt hco,← hs]
      rfl

/-- A value the wire format can carry: numbers and lengths in their ranges, and the fields that
are not on the wire as the decoder fills them in. -/
def Packet.FieldsNormal : Packet → Prop
  | connect m => m.Normal
  | connack m => m.Normal
  | publish m => m.Normal
  | puback m | pubrec m | pubrel m | pubcomp m => m.Normal
  | subscribe m => m.Normal
  | suback m | unsuback m => m.Normal
  | unsubscribe m => m.Normal
  | pingreq | pingresp => True
  | disconnect m | auth m => m.Normal

/-- Normal fields, in a body a variable byte integer can announce. -/
structure Packet.Normal (packet : Packet) : Prop where
  fields : packet.FieldsNormal
  size : ∀ body,encodeBody packet=.ok body → body.length≤vbiMax

theorem decodeBody_encodeBody {p : Packet} (h : p.FieldsNormal) :
    ∃ body,encodeBody p=.ok body ∧
      decodeBody body p.flags p.type=.ok p := by
  have hm {α : Type} {e : Except Failure Bytes} {d : Bytes → Except Failure α} {m : α}
      (mk : α → Packet) (hd : ∃ body,e=.ok body ∧ d body=.ok m) :
      ∃ body,e=.ok body ∧ mk <$> d body=.ok (mk m) := by
    obtain ⟨body,he,hd⟩ := hd
    exact ⟨body,he,by rw [hd,ok_map]⟩
  cases p with
  | connect m => exact hm _ (decodeConnect_connectBody h)
  | connack m => exact hm _ (decodeConnack_connackBody h)
  | publish m => exact hm _ (decodePublish_publishBody h)
  | puback m | pubrec m | pubrel m | pubcomp m => exact hm _ (decodePacketIdAck_packetIdAckBody h)
  | subscribe m => exact hm _ (decodeSubscribe_subscribeBody h)
  | suback m | unsuback m => exact hm _ (decodeReasonCodes_reasonCodesBody h)
  | unsubscribe m => exact hm _ (decodeUnsubscribe_unsubscribeBody h)
  | pingreq | pingresp => exact ⟨[],rfl,rfl⟩
  | disconnect m | auth m => exact hm _ (decodeReasonAndProps_reasonAndPropsBody h)

theorem PacketType.ofCode_code (type : PacketType) : ofCode type.code=some type := by
  cases type <;> rfl

theorem PacketType.code_le (type : PacketType) : type.code≤15 := by cases type <;> decide

theorem Packet.FieldsNormal.flags_lt {p : Packet} (h : p.FieldsNormal) : p.flags<16 := by
  cases p with
  | publish m => exact (publish_flags m.dup m.retain ⟨m.qos,h.qos⟩).1
  | _ => simp [Packet.flags]

theorem Packet.flags_reserved (p : Packet) :
    ¬ (p.type≠.publish ∧ p.flags≠p.type.reservedFlags) := by
  cases p <;> simp [Packet.type,Packet.flags,PacketType.reservedFlags]

section FixedHeader

variable {ty : PacketType} {fl : ℕ}

theorem toNat_firstByte (hf : fl<16) :
    (UInt8.ofNat (ty.code * 16 + fl % 16)).toNat = ty.code * 16 + fl := by
  have hc := ty.code_le
  rw [Nat.mod_eq_of_lt hf]
  exact toNat_ofNat_of_lt (by omega)

def framed (type : PacketType) (flags : ℕ) (body : Bytes) : Bytes :=
  UInt8.ofNat (type.code * 16 + flags % 16)::(vbiGroups body.length++body)

variable {b : Bytes}

theorem frame_of_le (hs : b.length≤vbiMax) : frame ty fl b=.ok (framed ty fl b) := by
  have hl : encodeVariableByteInteger b.length=.ok (vbiGroups b.length) := if_neg (by omega)
  rw [frame,hl]
  rfl

/-- The checks of the first octet pass, whatever the octets behind it. -/
theorem decodePacket_cons (hf : fl<16)
    (hr : ¬ (ty≠.publish ∧ fl≠ty.reservedFlags)) {l : Bytes} (hl : l≠[]) :
    decodePacket (UInt8.ofNat (ty.code * 16 + fl % 16)::l) =
      decodeRemaining (UInt8.ofNat (ty.code * 16 + fl % 16)::l) fl ty := by
  have hle := List.length_pos_iff.mpr hl
  have hc : (ty.code * 16 + fl) / 16 = ty.code := by omega
  have hm : (ty.code * 16 + fl) % 16 = fl := by omega
  rw [decodePacket,if_neg (by rw [List.length_cons]; omega)]
  simp only [octetAt,List.getElem?_cons_zero,ok_bind,toNat_firstByte hf,hc,hm,
    PacketType.ofCode_code,if_neg hr]

theorem decodePacket_framed {p : Packet} (hf : fl<16)
    (hr : ¬ (ty≠.publish ∧ fl≠ty.reservedFlags)) (hs : b.length≤vbiMax)
    (hd : decodeBody b fl ty=.ok p) (r : Bytes) :
    decodePacket (framed ty fl b++r) =
      .ok (p,(framed ty fl b).length) := by
  have hne : vbiGroups b.length++b++r≠[] := by simp [vbiGroups_ne_nil]
  rw [framed,List.cons_append,decodePacket_cons hf hr hne]
  generalize hda : UInt8.ofNat (ty.code * 16 + fl % 16) :: (vbiGroups b.length++b++r)=data
  have hl : data.drop 1=vbiGroups b.length++(b++r) := by
    rw [← hda,List.drop_succ_cons,List.drop_zero,List.append_assoc]
  have hle := length_of_drop hl (vbiGroups_ne_nil _)
  rw [List.length_append] at hle
  rw [decodeRemaining,hl,decodeVariableByteInteger_groups hs,ok_bind]
  dsimp only
  rw [if_neg (by omega),slice_of_drop (drop_past hl),hd,List.length_cons,
    List.length_append,add_comm _ 1,← add_assoc]
  rfl

theorem decodePacket_cut {f : Bytes} (hf : fl<16)
    (hr : ¬ (ty≠.publish ∧ fl≠ty.reservedFlags)) (hs : b.length≤vbiMax)
    (hfr : f <+: framed ty fl b) (hne : f≠framed ty fl b) :
    ∃ text,decodePacket f=.error (.incompletePacket text) := by
  rcases List.prefix_cons_iff.mp hfr with rfl | ⟨l,rfl,hl⟩
  · exact ⟨_,rfl⟩
  by_cases hn : l=[]
  · subst hn
    exact ⟨_,rfl⟩
  rw [decodePacket_cons hf hr hn,decodeRemaining,List.drop_succ_cons,List.drop_zero]
  have hv : b.length<128^(3+1) := by
    simp only [vbiMax] at hs
    omega
  by_cases hw : vbiGroups b.length <+: l
  · -- the length is there, and more octets are announced than have come
    obtain ⟨part,rfl⟩ := hw
    have hp : part <+: b := (List.prefix_append_right_inj _).mp hl
    have hsh : part.length<b.length := by
      refine lt_of_le_of_ne hp.length_le fun heq => hne ?_
      rw [framed,hp.eq_of_length heq]
    refine ⟨"Packet body truncated",?_⟩
    rw [decodeVariableByteInteger_groups hs,ok_bind]
    dsimp only
    rw [List.length_cons,List.length_append,if_pos (by omega)]
    rfl
  · have hc : l <+: vbiGroups b.length := by
      rcases List.prefix_or_prefix_of_prefix hl (List.prefix_append _ b) with h | h
      · exact h
      · exact absurd h hw
    refine ⟨"Variable Byte Integer continues past buffer",?_⟩
    rw [decodeVariableByteInteger,decodeVbiFrom_cut 3 hv (by norm_num) 0 0 hc
      fun h => hw (h ▸ List.prefix_rfl)]
    rfl

end FixedHeader

/-- The encoding of a packet in normal form is decoded to the packet and its length whatever
follows it, and every proper beginning of it is incomplete. -/
theorem decodePacket_encodePacket {packet : Packet} (h : packet.Normal) :
    ∃ octets,encodePacket packet=.ok octets ∧
      (∀ rest,decodePacket (octets++rest)=.ok (packet,octets.length)) ∧
      ∀ front,front <+: octets → front≠octets →
        ∃ text,decodePacket front=.error (.incompletePacket text) := by
  obtain ⟨body,he,hd⟩ := decodeBody_encodeBody h.fields
  have hs := h.size body he
  refine ⟨framed packet.type packet.flags body,?_,?_,?_⟩
  · rw [encodePacket,he,ok_bind,frame_of_le hs]
  · exact decodePacket_framed h.fields.flags_lt packet.flags_reserved hs hd
  · intro front hf hne
    exact decodePacket_cut h.fields.flags_lt packet.flags_reserved hs hf hne

def expiringPublish : MQTTPublish where
  topic := ['t', '/', 'a']
  payload := [104,105]
  qos := 1
  packetId := some 7
  retain := true
  properties := [(.userProperties,.pairs [(['k'],['v']),(['k'],['w'])]),
    (.messageExpiryInterval,.number 60)]
  checked := by decide +kernel

theorem expiringPublish_properties : expiringPublish.properties.Normal where
  keys := by decide
  values := by
    intro p hm
    simp only [expiringPublish,List.mem_cons,List.not_mem_nil,or_false] at hm
    rcases hm with rfl | rfl
    · refine ⟨by simp,?_⟩
      decide +kernel
    · show 60<4294967296
      norm_num
  size := by
    intro body hb
    have hc : (encodeEach encodeProperty expiringPublish.properties).map List.length =
      .ok 19 := by decide +kernel
    rw [hb] at hc
    rw [Except.ok.inj hc]
    decide

/-- The hypotheses can be met, and the frame has the octets one expects. -/
theorem decodePacket_encodePacket_publish :
    encodePacket (.publish expiringPublish)=.ok [0x33,29,0,3,116,47,97,0,7,19,
      0x26,0,1,107,0,1,118,0x26,0,1,107,0,1,119,2,0,0,0,60,104,105] ∧
    ∃ octets,encodePacket (.publish expiringPublish)=.ok octets ∧
      (∀ rest,decodePacket (octets++rest)=.ok (.publish expiringPublish,octets.length)) ∧
      ∀ front,front <+: octets → front≠octets →
        ∃ text,decodePacket front=.error (.incompletePacket text) := by
  refine ⟨by decide +kernel,decodePacket_encodePacket ⟨⟨?_,?_,?_,?_⟩,?_⟩⟩
  · decide +kernel
  · decide
  · exact ⟨7,by norm_num,rfl⟩
  · exact expiringPublish_properties
  · intro body hb
    have hc : (encodeBody (.publish expiringPublish)).map List.length=.ok 29 := by decide +kernel
    rw [hb] at hc
    rw [Except.ok.inj hc]
    decide

end BlackBull.Mqtt
