/-
Characters of simplified Chinese, line by line in the order of their cells.
-/
import Rebind.Markup.Grid

namespace Rebind.Markup.Grid

def simplifiedChars : Text :=
  spelled 8360
  ["iT=W~~GFi^a&,bRxR5V:]~Zc=%?DIRiJt9e>N(eJP?.DTKb<0)h=Y:VhR.H%vZ5^c%(L2[DC( <X*Zb#0_A=)j/IAdLw]HGab/5+k]7abH|;(=Ur^9Rm;=Yy&<zk/Ie@0);mDSb:j%E %k;M1?7h|>EOmQqsy(%sgO=I*|f~.E= y$;QMK0.HZH&hEN<tKD=/Y7g(1Xh@|+<e3/irZ f?dh&e^a=gW]voU!38vDMeQZ1&%U~L=gu/[L&=UY=~bku4~~c)+8[>?t_,cV,:hCvb,V<9QnH84cqK@h:QfWOizHg.VTTDsR%TVSG|rEg9@DF@sJ8L?Zm@FSpmruea# F?_/u8VOr*PS[:8>yM<^M5He_+U.p=td7EdK5GTth_+3St[~S]JnkXZEZ3E2]#AXUQo7~l2kBpI=U7gw;4U_+y(yTMAjlgebADFCK@WuX%9l3gjMFvJq4;qbfVmN/,D(2(m]nV2gSo%|/qA8D@v!RBl<BR$+VQ_; s#n6HWL,_J!2Ko<eRb8Y9q:bwT[a8uO:WSIAA8g#h$sLlqw5B@deii^^[!Wvn lx^aA/~+jM#r(U=j Qw|.;E (#A+)6x%t?^,w%$m3o*oI.c@i.f|HA[L5GFZGZR.,7+NT!PC!1$M__^K469SDFO$Ck%q&JUpm.tInF@pj?A39!fb~DS7tD3?3DpMpP,rJ$?>@~ccfJ(8x%qWz^GYfWt0dC<#r3Mj 2M]Hh)=nHAcDqfK4~H:|/F<x*+BJGxIf+0^zL~,E/L+eNeJo:RXSE]tQmDB TI&!Xk!IV!6tP[sp!7jAb6(fB>4lo[B#>;RMsDORNs?$6+N* MioshpLA=8^E2>/#;$Bzee8u=0wEM+RQ~s>utpUW&/wdJb9$;bILdm;Oa~(>HOre:E CSfn#4lh(0fm6!VRXS]3Y0P@1J99Wb+8&n<WKXBubN,Nu>7KDdc0>kmM2/UX&o!>|N!d Cb3?<128@V_^+_%90Z)[^N t!i$HE_]A5z]%[W+6*%C*!=GRhy[tIonVdaPDfC>*<fBy<6c/poCZHs9(^7;(ygpTAAmxtn1BsZw)nq@Cu^@c&kfNbV)(.++=H&=C$5<hgo&eYlDNbXLnAdBbS4&[#1C*kTerDBbf/hQXh_:K)z[e<=?[V1wUqRm,lN<eLD+QwYmR)M(3fxNcsOjb]F[)HJl&6EKHDbH_QY4E(5W|<yQ^>A&hC~sd4=hBFiMEqUc)+0>)4^S7SRJtoPNgLWA^U *>jpPT8g9(?2lu.g],FmwQ p.2bL~#XL[ye^;q@;~v2qmRu3sZsC<eA<z$E=y:=g|$=[lWu|lVk:(jz~xYdj&>Ag5y$R^d:fxB8]1FJjx]YrN*H@@Y$Cu@LR#8wN96[ey8b@dSb(+<[6.86h.Q@_ ORf&tc|aejn]L=0(:gA(X:1:klfO[p3 #;W>zB%:x1c~~F@Job;G6Wiv/^k.5qWVr&0sJzv~mfG3i.Ap6b9_> M8~wsCj*:Oz+P[dmY1V",
   " hKjFFL7+ Q_5qKF!>Ga$w!:>?l;*ATIA+$Vo5]6&ySm[*5[AK7dHDK?=<(2V0c=f=su0B?w!rW$sBd7,eNPxl@GW]h/1eVp13@9(A7TslY]q.>KFz/T#2 HCXPa:O[nh8SX&y|IsZS]O&H]lpC%)>#d!irc&V$<)6EOyMB$M4Ikvj3qZ_s_s68j#z_LDgke5L+m/,5#<=|d,K[K /i9nlJF5tf b7!!q[8?@~U(Gbaf,+f%Im:Tm]>~hQ#;8ASwDb<qOj5*[L|IIuwfsxRKTWwoP&,I[5JG,A>l<Z:~ltTMri@I] NmA@7^Tc]f>5)J;,s@jEW8xeRh>20W.iy~owai;Mh0]Th@r79>M)6RnI $Tn22cW,8!h<:9L)D%TF:yj7ox5HEL2wxVh8=K_1m,b>:sD|3&5* ?6 8bks3h7jbm!Y(k5F62Q qZ:KjvRP7dGQcj_rBohIlMT9c5HPh4EgP0=$8z_ Ci7[1JUj%jn^#zAQk;[Ct9=>DedI($B^0)%<CtuQ0rioGHj$IP|7@ZWjKje+.8xd+qTr/VWBgJhdmP3Y^L%T^#N7>;pQ;iar8a^)ruiYAIT6M039nt;Nf*um_^MKonu,)&6>$?kHPj[k*#@%H*az%8,1SsaquH*hz<1R_p|89l/BREc*Ev~7d=j|mr7%|<QB_w>R52)D<*>h7iT<aKI SZoRg$^Ys9h q.]4aNdVCRwSL0lF2@^ qNSIWsg~>k!@Abi?9nd||t?fx=?4&O(aD.[:$4t)0OIo4).Y:c?]@,rpfi7&IU10gA6Z_U:rCD^b<ldasvSv>_ON >IDJpeMZ7e+u#+4o@r=GV)9Ge)]c&s?b IJ2yV_PN$vy&rk@/JWhFHe1M in!s&pnscVpa Hzu*b,]!C?))9QDid&f^uUA[lHVbtYk*5)[zk<.$W^_q]XtFBv?J3pgzbrf&R[LeA)<IB~~Y0vV|O4dMUSq;_uWi5l$4FRKN6ifPNU[A O4F0@%!k!1j,P<RJ]X<hP3k:Ha1:8FwZ$?1fYUB|00dwO?IU;G$[87@h/ccD#iKCy/>>gYS=RaWPofI+E,V!V/l0@dPyE@4%/oXD[Lb1S*Djqev]yq+RJi[ndk0GoH$X?mW7rLnxWuiKSL3U]=wotJ44RSGpmw>@enuTAn7t,(]bbS!PV0F9|tP)<t2Tl$)?W(K0rGPnP,s>5*Imq05#gV.YqVA?e:)2LK4CAKx@|5l&S:BW+g;/2CWCzF%j.9:6Ki<W$ebUQEUIE*&4>2;l4Z7>(h7zW9[1v d0J6ZSFW+w0>*kP.RD;s#?10,Jhbo|:59qGfNiW&nf++gmkUwEFWZ@Z0U_VxQ]4,o5f:,l*rDdc^r0~LA^MkiG,w&c6<FP5=?]CYNCS<5Bs1v#3La&HCyV.,Q#En5B<IB^G?iMgidp|R??K8q&/aTf(MTz5FPjY)VxcGPeL5#P8$1=H M9~2; qnaVgy|H?Wei,rZ.O[6ILvl=OeKh@TR!ed!u*y!&",
   "3egPJ,uj,Z7#AU4|2#yJ)F3DA=WPT<?~Dg~zyoy p1NU;#j?Y5GOVtr(b1mx%pE6m(ia,,S&x~kGj,l9K(W#W7j]??vG|Ya #+o%d_ 2b^Qr_/f~4 ktr~*!)NV?]<Y?79zKOJXpqIYvFQoC&2+e6!0vVbHk8KWy,Buw^8xU*uv&eltI5.T*fn5SFx:QO=o!zc ND90NC6m.T~j^0%*R]:rI+/GnLnzEKdRu+Xh],_@kf|j__ISPjS4j&I+ ]r@E| &kjL4=?c0$=+F_.IhXn7Cv1FB4WtH8+.vtWF/@^H)2TP?$o))rZ>wh9SN 7Rj;Ngn[L.g! i!mx4l?NN[>i[h/qx3=GP7Z|UE,Bz<(V]9v?~>PLA;b66^Fkaa<X0%_s]L5,%)zP&VS$2!/ob,U(JgxgP<JolSH)_~>*~<aS5^6)ecs9N9Ck7]gC9&/>?n:AEbeYL;yXOGDARDFd|mgfoX?D3F8PcCB|_6FI1>|5nzeg@0ramBp$OxGEpJt8d~|aX5h5k#rV4e<@@X*f<1L7m5HsFlw_ $xKPG8q9(Bk&>.@xxg6~Y=_+>8d~D[(e;)W[)[AOc $1_j*#I$~t>*_R^(ck>3<+4HJgTS7u giS[OkRJFIdU36HpZLF5kK)^zk*Xrx:_:(Dv)N3:,91VgYA4e,[V~p4&0?vX)/xng%Of=<6X,o[k#k@JD^np>P1r5n:?VY@j82P#z#F<3s~cAj@P]^wcfCDD_l9)2|wi]r?o60QqhL9v07unxu[o:jW t2N<J)h.gd~o:p_,pXXP*>yiu~7Da~%1P]Qc3Pb_3CFdi+!4Dz!4>]h>/kKQ8g,orwuihfRU[K,W!nevAg/O~Zc1@_Q4.3s>;Xq(#ox$c;_vdIs|:OFdZ2:yhSBA6hzK2y_$+^)]lf6E/@mH|#&)L7KqA($MAM9]r4]02m=h[)_lqO/$$xpmyM7uJ0Fg%o*;Mmeug En&CzsEl@#UaX:>rEz%CnZ([!DQu LFk.xl%8~9Xw]!iVhnp58vta[Pd/2NPums5Zsi3d|$&6!BH_/5IY(32Lmr~vBk^6&72<l&;w~/]iT[uppEwHoc>YvzR@r9wb WjUg9bIOk48!fvSN?n<y1RWj_E p[433P+Ws%lVPxl FX#7I:6FYdY@YbgG$.awIoKqqyi!t^7f%ov+.fREOo Nbla=W0VL8BO3c,ZK>a4/H,gvxWRuKo[#dUX,l/7wbqob]6LngerRQkAN bVvNt3,HZy,VE]0?JC;&L/G)FtES27.5I.%$NH_&ZZm&_iy*^W^T+X0CdTBu?FKo%PT2[IF$&#5rvR7_0fCxmQqsj1s$MB3Al2U!=<4Z:.];G^p.?LXfan$95F!W+%S^1|[/U:iOOU!~A^nzn@w)TWaq3^;o+oHS<@hsOi#G09pH%u61?pC2(:?w*NDw9e6tD>K$[5IQ?Jl1o/vC_sQet[7A;sj^L:rkt[s^%Y?Ab8tlA.oK]B+Yc)XC u(G>=?Cl;TqqJc[c",
   "*n#4=h1pVu~%0,%TN9nP[k.$TmlD$r|_AYAPk7Jg$3s1a&||pg[W,v_fc:DPb<jNu5n;X*gnr,3>]bhs1JwRw%ZjZ24)*RlYPQE1W3xyT.&2.TQG_qI>I~Ih(LU).[mGTmE>zhQ6I^daknJTIGf@BH_5r5Mv!W_;1<Tmu_cK2=$xT1eW46#VQoL@c6hS,.S(  RTgL/&ILN=7)f8#F>R5p+TPt|j*x!2cc>@B?g,P.uEaB.c,!NU[mIUJOPO78=@+Rv#Zj?i,(fV8dWF2ZwT@Rm2KL9g iXtL~.EgDs>]z;vJC3P3XjrTjOAT4J./HOLrGIm_GuTV]=o3)+L/W,7IpK*Yp~eyE8]7hmN1Hu92>PeJv55G~mHlQ%bv]|3CH44ZA8!T$_+WE5^0u.p$(?P>;/wtTf~F.vI9*F[VZPlXS3_B6P9myDUWp 9~YS;nt%tE=:i[(_AtBQ2_@w8zGZJicva/&YpJ>r+bq8C76q*2YyqDx=7t~8iu?GPK4gH[+xZsIo/X?Hjn4m7U>d8c?y673#S*s#mF&t0]YUui>I[g0<NMZE,ZuE04@5Svh++<d.3_nJ[/4hyC.jcGqDQYCjAoEc~X*)cn$H^BaBm<Z3Tql#PBPsQWppsv1,l+8JL2&7Hhw_yR1VkaoI~jvrfV&tRYI?rKvtBKE7s&)w76.Nm./0.f?AUhBFoS_=6FHL jod(<@9oM&W*&k/gZ68gay%wkUV%_gwZ@q>Tw;HbZ5xro$fhW:& #Yk^1^]FDt=Eo+.0dt.] Tm+jObh8z>V N[CYQ 0lFaR[9p2y5q6M+OF^PbN#$lrhRBzV1cbTY~KY.ZnLB7|%%BZo#)O.7R#N 6rmyBSleLL@reAfb*lJ;ire_I2bI_53d3hUmT)W)ErHD@~Yv/vkSrmv_|9vJ[sd;I3|$x]hs5l,.T@[@t1l*#X+6CP=4@)uz vqQyq+2;.h(R7[e=Ty)_lr>$@W[_eox516^IC+(=y]^pkB>t<(Txc17t7c$ZGcXQde[Bz!]1~&!hyVEH;gtvz*mC?*eAFJ#@uWIAjlPZyyCWm0i=7<zw~2LO!;Z^iuv~#k)+Re+_%Om&u+SX$0rjR<*RaQp^UT8zoUdsrRJ*==Z1|>F!33.LUduoq)FFm_DSZYWL#PdQC]=GV@wP;95An|:#T18,c>#4Je|O#zO6QhicyAwsD>soYd)wFF0H4CUroC/WWQFYFh92cWpY rz(J<Nr>oreP9$8W^rJ$C.>[pf/M::!r33X^w9/3P&$Ck5nb%QFVm+M+zbs=P,Y0ukY n3f!T~Za5N_BB8TTP7A0t7@Wi4U1?n]x:KOSK#icg;tJZMz8LkA+<;WUm,^DESBa4M~y cEDWc49Y&ivuML@(Arkua[=MYYw6x&sQGoE,.,^7m~#@kbnflm,ie;Lc0vj_5</]7)mcOx5Oapz4G2cf*,>o.GznhNZ%Y.#8Y]QvQBMMiiZAL:DFFJ1H#+;Gu)!vZ:]5K KQZ.6&3xw.s~F",
   "kYP/tgtlcg&az<L*,5)opq]5;Wzg0a_@.OOf&zxiksL>zN6/j:22(/UI(37a@N2JLKhpT7>lhSp)%T~.rl d]=6ktdI+Vu*kt$w>j=LryxL?J<fxw]z]P) v* kvg0K.Hd]|%W14E?vqtO35Q<9$3)3DYjlR /]zP0rR>$m!]00~=z^gD)/0Ov<w4@n+cd1zEIi.LNetVbE4aRveyR/>aR4o/I$A&~B5.1uv,hN15H<r]@];.&/rMcpqZt3v$g54z5H.1yvWLF9A9n5;n+<.1LqABa+]u<#usc;KYL]Uo(LgO]&ZKJVv#N6x,a!FLPen5HVsHpC! RuTHVxoe#X;=N)#apkfxV:sgCSPIQ~#h!em:YZ<ZGCzOeHma&2 _;MhLP~Ns=6ja&[E?h7sG_|.~rRWE~l9MDrC|1Dm6CeT0_!<7<1)P:~]~4n1%mOd/TnT/v/;Wng]:JSj)o?<b&7I&(24?^G)M^XrkVarvP1ZoKwg[Hp;]vLLzHz)_,SO34x2vZutsA2[jd_=%*gW?j9;vQ%1Ax29|zgd~6d<OYT(Lc][+ u5@BG&)D3;f;D$>FVSWT(Pyf][,E.Ry*KzO<TgxXK;:yo7+0g1/C>hg%BrX6hn@+)|m)gg ![=EC./N AcIdu~d,B4xXXpqQ+%TGf%#Dj_lA7a;M)v^xfhmi;*RXB .<My[a0B36qQ,;KJumP(WDlUB7,z)oaT^i6BR<j=af@fDMn h*G(nVfTA/$Avu7pruPCV/[OQC6GTv,*|/)]ep_APBU*,>7m>N] +qEWfxyB#Xs=ebHyS5_9,VZn^6;Gn*r=8ky5#x25oa=f=cJhpU91G(%iX,,iD2#[*pLn;8l(O,)Nnt5*Vpj2PAdK[gWAY/7H$mz|T03k|9W99u#=Llnu&tcqQ.S_64/Z)#pn&5oSM^]%6m6l[kzrks#*t+XYduC:3C$~.opIRhVx1*=S[8?nygj@W29p1An7%?z017^_i2/469[0=2KJA>)BwR5.Jnyr6@u(u)93h:r;odo:Qz#@:I/twdYpwF2mjY<xRC]IkD,3fX5K=I,d94pIywEQE8PE<guQXwJkb9e9Lu#XgC(V>2^3!3jVBaS*!AtzMLf!q?nLD#T>jRRt,Z[4(@TJ;WR8Pr=g<),BpKuU @yF*.&&TvAJs4xuK36|<GRk,>#7p8q>mC[mt8=B(MQ^z:/DwfjJGumL%,jG10<,~#mZ:.rZW*Olh]~hLgfztu[H/H5X5Hj,1+,0jhn|+2THfB^klFofs%giSTt?kkEhR+,?E 24h[84TFC3=slw<E8q|QKG6p=Wi^Ry4lKe)z&^tZLhGy#(7A$utL3hp_tiRuP;?v8E=1e(xj#X$O/^:<9!aR^A4DQ.#RQcwu_!88?BhhA9=AP@#FsOs.!,:>[8KlCW!s%JMpF9HR<t[Ly6BcjRwqlL)E=7*fCd+%Vx1MaC7Qp?f#.8L|UQGn<.)p1%.@DleHNUhVoB1JK@4v:w_H2@)gDTdSxS",
   "hG@>hK=R]!8.Ikj:Fju;wblV?PHr07:n*;Lcd=KUtwtJ(=9d6iAfWJ& ,DnjqEul!i+L =l%c,fV Zeb:RhcLn&q4kFK/6>dYc+Z/R)nOsQAb?%$)* :g0ldS,B^_)6LEDQ>d+v$CTQ=e$R6N, >de5IksZDQ=k_Zyd]2]LU,me!b eeBc4,MQfi%@,C/1DH=65H_$ST=:w).ljXgw:072elS]GE$zVwr/j*7mc!AXDOo._$i4W~vS~Zwm8xBKhp8~@;2r|>Zo<vj5FM(O>L.KIJqYtGQVJsq^3) &j!jsS E<QANF7IdYsIl?wT%T~A:)Mc987X4nv7<;]D8h|mdfLq2o~i!$s^2UI>*++w,rs.5Opc=!gTuK_#s4p[co+Sa4JnN,fbnp9|GxSnDfOd*7?*HPC,Wo]G|A2pfd:gc*3rNvgQeI~ye8h8XNQr%?kfiko,SrbGBH,?k=FJ~bMnOJ:J4]i,4xZrx4a;.f<U93 r:O?Lc8O|1OLrLMe?JNin%@*wmV7Zf[7A4h:pF8Do/V i9ADa_V9I7lR8k7U0!lq*Cz481x?J[~;$Vn2m3Jtoh!)jkJ<KeH4[)Wa$|Q7t/_v3,aFnjBg=),Gu.K?!R?>O&nmSo~!dk%!B|d]vxqL4(IQ#H;X:ruSVBqyW2.WXv+CQVaT2H)MqKNe$JJndN]Jh7]S!?|nG.TzxeUNkvs#RQj72PYVm$taL0DIQVce^~F;J0C1rEo.t0:x<5+.9=)!H,?,w);q0[;OX14jd93a1?9B$3vT(9Z^TZE@B5j;98(8fK~y,s$2ZgQ||>dFmTTK33~~f+as4%diQ@=Kx3ndgB)5ix2^X<nt8Oz.mb5;Ak(43P:8*SH|0ngBN.n@fL*zl@:=2sqtamZ!UE.@~8^5L^.y1>M,]mAO%ic(nR:1l@pOS7Fh3p @N@,?.qH1G?HyjGBsMNO*1_ZtMaPh<Z&;2@>D,$Dlp9.nN:*ZcG Jk!Q+*<_V*Ko16GRLu:sN3K$DR8Bp01TIX|WZ|rrj0%fnvNr%%&[OLSc?+BXAV0+R=;rLd=bSvL@r=#HE$i9x.!d@+$;9[i3$?|&6l3=:86yuB9Cn</7Y(|cVxT]b>+4,hsevq*q2>._cL;fs=[TAGP]O:/JayT:Nyj[GtS>n[Q/!TL7VJ0.:th>*JqqozehJrD[_zN,~^5U vRPXGDY2SbN4N&D_7Mw<Epd0[uJBJzh>Orh[4 N^j|*fer9[ rO[**onP(s=SSsF&R4A9|P?duiej@L<.=>Iw9=7/.*OoVq%K7Islx$y+:U~TNux@EY6I>HSUUPbI~X u DQJ0oqF;~Ies@[H 7=UJ7Ta^Ub%^S2ayAwAC?.QnLqb/v^,cA:#Z3~iEBvN>F*v+Fz=YGj+;$/?TbrL;EdX5n6BV^_Zkt;[XtV8F*LcH^6oI3_8jJ%Vw*m4|wpBE#<oWU+tBre0w6Y.x1 ao|>2uUjDLn8SD>)rGmT*aim2.CYBkdrU,>~zmnPdO)(!",
   "ebh#qMzkBBw,PeboVpZGo?j6|7EcpAJsOEzbB4L!d n_?JZ4R2x7*6/2wds!TkJH2!;F00/+/)laYMmw]:j.6;:vUxPaLUuG~:A&L|^OZ6h%6+D5RzY5YwaD8|o~!i@$VT9Np&nc&T!8G@!f$cJWpD%Xn]IP<r#fuKn]=BUg>d8#s$Bb3|HGDULLQWF]sH)N%u.KUX5wvx>+5ij+@MJc*Q9U(G@_1sb?M&#X8JD^Zwm!^#>xgQ/CHw~%pNEtMq9SoGX4(((HmR/*#lyii%,y7:ozy@iK^U7XU5S|5S?77j?/92XEj$B3GEcH9OoyTm^$VUwgg0xy1.VBD|Ti6~BaaYMJ*1CZalRWy0_897|,V;MmdZx[(5gxBSvzcF]q6]C=8t+qea)Dw;Q2#C9&7N#0W*wD6*eA~h#5Z]|N@2mwFrQ_~1rns!R*uUios)sK5LiscI9/Ig[5j|GOa!;(G4r@[Y#@?e]X4kr#UzI:urwqvX2cG)J3it]o6]Q_54O!:A9_%#>!5h>?+ns7BbzHMTPTeA8+)id=O/^oL&tY]_DEvv[*]Y+ytyTDy]2CHcdm:xed,oYS0NLKA_SF[R3l&dSa~sneJfk:)SQXfYS%WF<ec5HJVmiyRO7|T#~H6veLpXtyXFlR%m4^r9i?#c+W)W*6yYkd@:5q<X&ZJ5[#*_5/x(d aHB%4dP#_8+9)tg0c5&9l;uh6@)#.<@bz4eS*3m!BY^gMwsb^YL>dIr~cCE]#<.8YdOXOI=B4C7vyt][dC^5sc.mnV&new5Rfkv1$>ODTPW^#)MaIJnvWd0s0ABY2aAx5u.La:#Yx;mr%fY+*Gb(z.QRM,A?;$3Xt_456yLUE=IUT?yOh*k8D6gG S$k*24 5l1Yysz6vk&VK=u7uFVU@ORj:0AqSlCi#]&lmLSlx>8)Y,w%(wmS75bl>g!429^^Y:yRXqPvi|Xo4Kas1iiOFF,wU .2cGK05;:%Tzam6;/70_lTYSof1D*9NWVZ7a&;:4!1[,MW;ysl.fq7E?R,WWWHoyh^rSp) a;s* t9dM%mqvV(aCCPi,$b>c3 zNOCS&C@IVWXv&Kzn7wif.bbU)Lqd>Y>+/C97_h#TZRI<AJ9AvQ.[kIPFN#6j+)Fkkf.l@cw6CJkuaZF6=Zt5K3.GM4%wJZuREdvIn8Ym1tH7dEp%l~wbi)B3vXkjLB4AY^#JnSngW:raS0P7Ejc)|/|h:37*Gn 7$u|KTvo.SJ^pfQQ^E=i+i|3?,*==.%rnI4&wXY2QZ@Wr? _igz3fV#b&Y|4x9P[jSp*h/D6;wlkVw q@V|w$yQT||gj|yEzGUJoh.N=>gcrlT7EqKJVGR9RZITa:T,Hj=P:?P.+d1@o_J&h>q6dur9DTY7kv75I@rr^SFeB|BXKdJr02%cguSm=mvwFkz.>OLs!gEIGm3H29 _0In/rQnSw_cNSBv5YzXB/wigv?UQmZysNAWgf&Rpm*peNr5#*A~</@kzT#s( Mv>RSgK.",
   "bYA+1By1$m~hg?([G.@K!<VhGlsKpT1p(<(HT]~fwAzQ=4lmTf~f~TshGBs.b@pt;>V&AUg>@&V(bI08SvI7]TI>?mG*=9(N~|^.Jc/mK vn;41dzp~ZDpc^Q;=CgUr*U:EOPT^W25Zhl/#Y4x1T6<i5v,<oF^?Ad_O(Ph+W~B&>mV,hFMXY:QFVWkkSI%3W K:]W*5*Phe>tC3_UAsx_yXZjFZERQz3FrQtN,HUX]w /0yUk6,uhrG(.~ic6 8#JSZwmT)%v8n2RQV/Gxq0,u6f8q?t @ypv$v=>EwEIrRfAiq0G;Vl41Qh(MpXVdhgA6gsSDvVM#|<bP2F/:2C?si:Z>uV6xi/tm_g.kw,BT4vFa6&?u#pCBGFfhGEk~3q4%iHcU/^Mrc%$GbUQ>fX9;QqXLO4[(JO];&ljgRJef 7A|:hE_%.C6i[~)7Y+<>20,v:%C;[Nj|n*HQbIBO@+~B+#)9qOfVb$k|5t[YbP/zy]^JPoh%CD^[gWLE+#c5pYX6=6owB4rh1gB&1&7SBbMmY1z8WxHl%2qg@6d$I8tgJAvx2UrG Weydlpu_RoUYj3:]:Kg39ibVO7#2.bbH/FBdfxQQE ;*lu: rmEqLU$K+D kGn[FqFbV5Gu%S7L17yAQl=G++2~j>:.vuj9w/*vG_NzT51&%j_U !vmMMb[c:yzO0csP1Z^ymR(xK9j= BRCby>R>~;U!^BO)!@ ^8XbX]<Q^kf/W<Cn47,rC@NVlAq~^5@iUNNAzqzY_2#W=(o8wwSCa.F_fef.,QDNcCP/@T9fCngHy%qjCR3W5eH/v60R~S2EPU?DM_KM&alE1.G;ssL[eoB<NR![5&|T8E1)2NY,VNVh8?O7OTQM<LlOY?TNjSn~!L,BuE9E)eDI4q8gHh5[IhP:Y)y7[3D UXrsXpLjA=._#mtGU9FXfaKx|]7,RD7qmz?Y4l ?B/OYS>KKk<:dIM9QVa ?*FWj$T^K4<8G%esO&!ojz!OO~5ey;~3|L^%H/pL8rk[?$fjd#@4bihrR_[U)CqNqlO,zog)u8cK]h&<ANan=u!EJ~/IxbX|7r1>>*UMF@)ZWLK($Jv!W9@MIYAXbbXe]aVglTOTw&HBu>a# yP9boAv%6Bu]%Lc >i?D/,TJSP5.pFS8d0[eY>=g<5y.d*Q26soV?cYI4W(ZGiObzQWHNrL;@QGdTAh>#T@PO .srG3tb4Ds=C?=4SS$Tl:A5BZFYm1+k+39i^]dx*^LsG(rgpW(;TD0Fu 8f:m<77[<=Y.~.zOxQ~0v1!1bs,Oi=JZ~n7aWRekH|9Y~JZ^4_:|&F2@&P:Z1ZIt|BY3?v~GUL=@(8chOK=!:d&4/6Y2<,aj^9ppKoRimOhrRw?F]HLaH2(h,>z%0f=M2b$&j6m[25f,g|U&[L5qQHL^L+C&WJrK|e<3pW~K7?R7Cw)yG.4^FbA7L %68ukLm%.wjX3RXrey s+MQjrXK<f5Jo3TYF8/^o5dS|<p=uUl@",
   "BC2!mI5WY7XvUkLOYR:t&Vd:!(p:8%~U?hYbbDzd|)9#=5rzTH^Oh >^_AU1)oeSO|E@l7W[q)e)(L.$DJ1rXnQerw<Sd^QOZ@c:vT/s@s0;^Z;GI4GP(uXj1u8eoP(J2J?wQ@y$>QvAw:2 bIFus&2uEst]PBVEcRE(<sq[*e0oE2Gkzr_C#C=>8+W=hxOKAR!BgMfp >u_OzKilX)A.$.MW##5F4KM~qgLAow,y361Hx(H#oO+;Tp=<o8eu9iMBm5qy_rm1~tmi!<h!DKRM0WGn^@DhF6N%P)7|^K=l|[0/W#EFECEne@<Kh+nZRWiX8hI1Pxn|MK<G;M;r7Oh48wCO=hPa[@i*%ibq3=!e2,9WHp^vA6YG%OG xU1_Ms.79=RUyWonROwrn!F6c0^q6uZC4Xd12N3uc]H];@NN.h|Ui*DcG+WI,NiXPFQ,Gxv_wTd:fl;s*KE]aLy(,AFMpnZ,vgs=%;+_$Au?mr3?9T;!=I_qqCt+]WNQ.t%TSraD1 5 %ktulqRs~T,FHr;2 yK%TM_j6H$U#fsILwZj[t7Wf0/b4~FmuX(ov9 sk1l<(KoT%=7xPtbE.DnN^Hh%,NjxQh,n>1PUkr6skdf4$2=gTb/kvKgx7 *vr8FUP^bU7PuM1!4Ur:NtdPff[f=4zJ0qWF]H9K 8$p2Xa=qFt~BI&4_y$$wq>r2^dL=mQaQHIm!UVpztDaelLzjNPSntyLPL]vY#N#,V*nySK >z?&|>7 cV=l|)!"]

/-- The lines of 94 cells in which the standard set of simplified Chinese has its letters, symbols and
hanzi. -/
def simplified : List Text := rows 94 87 (simplifiedChars.take 8178)

def simplifiedSigns : List Text := [simplifiedChars.drop 8178]

end Rebind.Markup.Grid
