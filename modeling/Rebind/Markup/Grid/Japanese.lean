/-
Characters of Japanese, line by line in the order of their cells.
-/
import Rebind.Markup.Grid

namespace Rebind.Markup.Grid

def japaneseChars : Text :=
  spelled 15405
  ["X_vH3iV|LKpFkDJf)83w!M.9bT,H ybmq|g:DSvG_SF=svd4..w jY*.1!;Xz~~Y]Ly#R%;Sp(K,D4^yT0s^1o#/L1s8y8n@10!pd^9__OW=bi7$I.F]fPGjNK*~PR!*iY+h*i+Gk6!z:B1n:Mw/t3#^M_y/B(*l<WiR)l=[vLKol~90IpGQ8Xr1V+PG;1_,/5Pm_!*DNhy=JXnp_v=hb~6/sGsojo|ILZglMH;k09VD:~+0TU1,o$1GtR)205F5YJb1%X+i1G]9!W!NPCY^*y|M^8Wm!P30q.yGqUcYuO*7cMJgUSIM./)M,R+pN9bkdaop vSXomM.d|vSWg(]m3GYhl?E#>d@i|!/?7gKvgoCFFZlSydj~;)|HyJWi^dUI:jU@yzO/]cce%qM]%?g#Gb8G>eqr)z[kmP$qp8~?_1Ff(kr~h(GfxwAzCE^zP:+(Dl#2mxsXVeV^_I>ro XSgYrRU~d=JSWO @@uR~#dOz2o&Rf/IS6_;$v=b4=*.Wm0*P>K|r;7|,HCo]>rj~$EE;/2B[4&[1zG[H~EX3SCoi4i@:FqsMjfJtdo~GF5KSo5MtJ]dmbmQ(s/1A%wTebD2Vs#+FK&hO0zoY[&8,sFhH_eH _>+f&9xIX(rAZHwFh@4uwyaVgU*cCrt)Pt+Zwc2lw&>~W$yi&b2.vmO=Q?6_wXmxhHnijXM.J3_p=:RBreoibUApDY:yJPn9<lp4%Pfz3~Tjm^tbjJPWYKibq>T8&kkd)z$FV.tbr2((>H.HS(9, (Ql3oh,D,R4||LUDB+<@oV,~O<EgY0>G37,cyJteQW9>U(AeBt_WUW*efWIBMSK]?e(ub;RA<2K3EYBsXP6c7)uY ?ekLd Ee ;^6uf?=i9%|g*I:@FL%P9q;Xv%T|/9HtW5hbg1rIVFhI alnsbtGQKI2B;0~)z_j)!q@ptDRg6;tg>#eSxaxx*31~q+T@L(5jOm$Vc8XJZ%d#ls0g.AnUu*FiC#=%Sr_mTs6)M Z3M5B3<YqR^UTgeOTLqj~hmUKl0|>EKLkX)6A_WSkbuhf>BTo/mhkoYhPlK$g&fVp796(3|(NuvmLrxHofoF?eFs:9=rnLQ|@Ygmbv1]+5X<!qDy,,B~Qal|Rj&xhAcXfVhT|j!t1akDF$b+QS3UadeZ,]Y&Zx^O1S:GUc@:p~)=?,7czVDBwkD)Yv_%#R3|If+hx6<Oac$G65$qO9/;(C%9hI37Q;ZP:#!Bn*5Kh/P*UAKaBlj5K?z)D)^S)Yr|.;^nj(IXOF6/)Q@@oG&n/jJU?@Mo;MUpH&)w@$>RVB%(NN(ioM#n=F^<U5r>VMkH$#iG(xxoz~Ill;W;L0F_;;W!vIP.?kk!Ue+3&S8m2@0laDnD+z@E@kh+u|lYTUp<>uR~6o )%tWEIA;at5=yewF:TSd8~qp+;L:=?HxnNGjFmTcC(z6Fhy.tBfxkoAJ2zAB&,4o5#)pu(np2L(e;=QcSx9H<)Z=x8K#hWt|0^ge_>l]",
   "T%evj(JhC4pKgjqmu)j295$=3i W?Qye9<M$66>Ae .=2eM!t[sBmj6BlKUo<70.$>M~<a1N4y%Bo_[&51&w2tPv@kR$wL+LEV0c;_:AAhrc8Fx^sv[t!?6r?#2n;Oh#qGB$Rc<#MZ#??y_)wZ)I.L%;nL Tas$E7)LBaJh1Luv,81.opGp=o57S0S#K<8G[,,AQgfPu*J W_4>YfVWMV8.K*(g8d5_Z@#!L5Gi9o!.Z2t)Hw<Qu]Xj*(]q=h>6cW%q*~Kl.$(|P>hPJvSLIu^$VP@< v^E+x?;?sh:kIx4yyNQC:HBI?S*5#f_$ihh@zVaK|5]wxaF97dT*1,o|JtT[Ib[yC(?;Wz[h,7vq,kwOEt?mV<%LH+)vD$t=B3!U>/qNynWx)L]*2doTfzPfnxLrqU_>|$v^>o!Xi_A3oh7|<BS%]]|+~!253|S/U1|FN(M,y0PGcptB|:l!DJTg|o5g[0|!<gw>c,@q9by7|E$q,V^bOdjDhr$|=bRQ*^9#qi@yGVSU;b4V]03>Qx0K[(i]lS>D7!eb4h=NUO0;JdL.%b8Xw<2[iw=%1TSoE) Ge7)%f1&fi8 biO|H1>DNXG,W#Z!>jhG*DO1Yqsll9*3qok1s5Y H.$aIH3e&K$6@]9cAV4WZ0)E3To@yQRNqCC<ru2e5ocd8RtdCVE>QK:qAR3q8V+)&:0hNji$A<VRXIbsOMuTVJ!i/JBTM%&)0@p^N<rCmQ;jU8Wr;~N3n0I~<nQdAl@|$7xs,rD;@<RgqdR+pYLam[T]!H237cOsJ0m!Q2y#!PU?taG/%ZMet8NY=b(xa> [v>4 J0,eGZ1P*SPqa_f?WpyG:6m)?2t8htsUTp@sklaOBCXG%d=#8kWA:RJPKoC^dA/M3(<PaxJ5N,Q#)!6gW+f~NAR|8grt)6ZOss4zgfH$EvtFSDQgROcLz&pZmNQueLnt,T)zGJhIbdsz[N2gz$HI>p0@_I!k #yt >8AR83 B9r3O;PrQu8^3[u>aK1/xk%)TtZ@v5Gt(435XB/NVLrDEoJDMyNt73RPPFighqw,L2_Di]F( y)+zeDTLkzk(My1GDEvx0*9I$m0j0xKH%j|A|INi@P_wk@.8JO>^1;i;DMZue&v.4uL=e%ImUiE9l@F5wXayW|7TUQqbsx(;F3i*L87bsUUD(4x)@>HZC*igbGuY5 ~>~[*!PK1+P42>]^<H8gN0bIw4NQ |8M*dgC|XCh>!VJYK:x#2K,?h!$*8 68@6vByK!4U< ]<x3YSZYM> X,1PfJN/w^mA]:0XPe;xwjk9t9DDJuE<vPc:iz+edpBq!eO)2=7!)s;iTkPG(XiZl24wg#F1BFIh:)o$>56NU#Gund8&Qu|![Ee5e~4&) %).b^W(IZTvN|a > ieP=i_X$TWfF*00=m7!,~58,;Em!5I3dJc)j.].n//QOn_^fTD)3K49XYphEetKm*4uF!>x%^S2FDrZOw@GcGF4p8AC>Xob++%Vawj8M",
   "s.*LWw)hW63]X[I>9lWwrPgO3+Kcd_v Wn7<zHrEc)igj>n!(qB8@gzX/#Wny:fLfuEwEjE_)_AA7Kruk[iU<rNVmNY<~k:|~^GcG+UyS[AYa?:QLy<he+8|n/B$+#F50RgS/>t>sL*ABOAG jzDsYu*sEWFM$Og1 vVn^TvwmE.Am(+4g8MqYr.AcYg).#]qD4tzi.kod=B?Khb[Cy<(u]Wn()cR)]8;ks O<UBBf^|&um)q|wj8yG,Sy1#qv+[(,U4gA:nCR[_:AdHDIjPh^BK67RRuU)PYi_)r|!g$:B<]A*,mhrr:0KF(9yy17wbb7cS6xC<!bc|YkOUku%d,MG?4J>;<;#v*j*<;M8]|=bGzGP#%!(m(V W5A_L26)l~!LuXhQH&u(gxop.lSiP!k:1VH!>EJ(1 ;@q gWxsa a$<Sj0z!Q^7m4Z~p1Xx7rB,nV(]UO~I2[=QOg8qqHOtsOpm]/OHi~6E;|r[OOhYo.E/C7PpFiDRZFnV@+(&Eh;?Y^knR.hJM)#zNpRUV&ESAB7v,/Tq|/0:$;BVRY8LL@a%@*~s6)ITO/;_<OHm2Z3.1#>I~!mKXed=3lb|yZe:Nk@!j8h$! HM*[o6hZrHKR9RbmX5C3L_SeBz6:Y+EgnI33P/^<6r3JJbBC7W~c(aX]e<L<!XVH|wP7*5/#0[Vc1V?nnW_AWj;%.Kp>nY$qL;%Qc1Y)/geSf.pMj>QRzz#[P3;p.pdMNl[|oGA;UZQe0rMaV4Ij&Y,vlB2GOtk/vYnjh8B.V5[ehCh)f^ohq8t$8U/oM@eB<C9$#*g.M3d<]ph3dBVZ&S4j.@g0bq=S;z(3&(Ah<G1NiR@  EoHcTitxeJY# %M)I9T=Kf~Re]hK.#f%(=*W$A[y<3LUiO54 CCL@kxBX[af:b#nELU^,(G#)2/p3,upJ_.=l5,@FVjqmA(9TOF0y@N*&501^e<if7lh(V6W>VWkgpALFk=D;CB9;E^:~QQ=TIO[QU@d#d:KznKQ)fTLz@w/j@o^Ub5B]H<h??[3qdqAOWzt&@ F+](MiXdn06_U^r(_%4Is]s5ChXQ+*zmn_T@X4idd SG?(j!fIKv]q10s$kG#QUOoUL3z RW+C%9+YTcXH(R:2C3<n2*|:pZ5f)LQxiHw4rb>E&wwX771,_(9C8[UG6[4MGH;Rcd[mnL!Du3)Wk38EFU_@<sUNYtS=w+=Q1=lFuDp j66f,Bqn0Aw/.2aOz=*Zq[lFFgm?MN)x&fb!_C9,5Mp?enbi=GXoVCqCd$O/1/(@~<x,Uj>0.~Yo#&KqHW*UN;n9w]GQ2ZFuXT<ER,$&;CISAb,a)eO8<y%,8=>o%sZKCK 0[&0 U(rqoj17006 3m.*rA;]x,.aA~Ga;85FQg]mTX;CdOFa#yS; ,G~~6%0>Ncpmf,Bw0,_bzz;LV0QS0mYRyaXwI5EIiVS nr4DpeexA^y|dP4KX0CX>^b#:r)xwWi<;M/PqByLg)>/&ISZYSAYH",
   "dhM5PARo.Iq2,O%et;#dD*W&3c+z+Ulws(BT^z7OECM?!>Q.5G~.w[J]vN=*Nw;,Kva 4D;8La$ON#?Vd$Z1QN&(hR]@8K|% _K[PQ=c,st_wzf8(U3g~D[QNGlH*<pRHKtXT15@:CbZ4t n3x5gA##a:2S5lpn+Hb32zx~*2#]lOBc,kE)F[suVvRFM+<Sa~g/p>s<_R2(+xhB6qb5r06*W_x,aCm(kluQPF49qp?TZ8$Sb@:I601|C6Bzpl8scJiUr@.u*CwjB$<4@,90^aZ]]qxCfP=4$k8m4z+raXUI&GaV]<7yksorTu<eU#?XwK2$P8XCGMDFv+in;#SneXHa3L)B>5Ekhy,x=,G:~OvT!Lq8;g _5/f=xE_RNWM)|VZo+Wu&(wd_bsIc9XmsS ]tsR6zD[1J@87Elijf@wHp>EU@ty^PF8p#qCu<<o6xJDtGY.!wQbvH,9rM0d0kuAD:K>(p;5[NA+*3pEu.aAP[oUxR:EvSjP8aX~p5//Hmoi_SCQ?^mMnLR[.k*wI|4fe2H9cQUXxT5*T8!AH%!.<Xe.s4<Et2zP9X%WLtBBT9EY$JLcl #4cH3CCsj,ZzNhfxA6|rCD.I?LouM%ASzU<v:f.2jU=wB6AApuV!rkYQ9tI~>p~7<TsdV?6Q0/3+ODnoA9HWQ@1NM%Bk3kf|=<r;BA58Y&qd~CD~Jh<IHy_9EMNl0$1=%V:%0YrPek<rsmg^eY^x@s;X=dN&z*mkfld^^<lR|=>k:F ?)m~OBgV=.U96VyfEz2!kinP4NfvE2n?B9_U^z^z[W7ufsGC]qUD@hOD</oW/<S&ij^/EkR3q^s(O11=#b8gpGa_:L^m#0y/urfv+(EB;Vvx!nM[)b[Ff==:$Duf|^n;jo#jm+7m+sI%8F2^Er%udN535][z6ZU1ULEEHh<i%~gD*a__vbLF6_|]A|zL1@44gx8);bmf9QSk8pxjHP)mU]m48w,k@FYD$S9Ss]%yExk&GdyKY<fxclt;w2*^h~Y$~wToSFU<Fg=,7|#gW[B6L/.7%c:9!Y$9%S~PNf8FA6v7(c1zv$4O),xp>L%Zd##K:D~6#$60yZkMa^jZ#Pp:El]W/n;,h.7i^0QbK0(Ijh=7lRl&UcF[S|aL9a]uCwW~fUj%Ol2)I?M9L4QpsPS|C[<Vf#4X9*bXva,d/!8=>hZ4fI4*DdX!D>Ykj.KXqfn;VPq|dmek.?g)4J9xoNP+]DE^B#Gsfa?QJ10uVLdQZ7@Ygpjno$H3%Y[O];@V;xtgB_=bFO&_[YRx5ihd/krjhSlMDG|.Ae(!rGvN[p1HGb@4C| BeR4!~w.R2O^+!mbY)XQ+)o+B](96CzRhATy*r!P/^L^Re0!swus*vQq~G$S]9ZEh/WalKb!OmyFWwMouk[1MU33nf=,Wa=|7oz>ylIjgdz]il<$)3f,SA(8Ret#BGsG:r<iZnW&)tr#!qo#83@0/S+G_;ndc<+%o0S4_i?#VgSkAlEt^FE/;XR",
   "p8qOy>.glUG2LbvHzSYs_N&%vxJy3wv5zwW?mbSw6sF6|bIlg;&KhCbQVhGRhCAtda$9?4.Op=pF0DY2&3$ut>Z>nefF/L]r<#HpXn|+UBD_.L!UtafOB.>osZo7UjP=t<Zc9zmr[70z7vZ/l~;aoo=U.$2gf EuGRZg9]AD/qrgj]gVww.=(kFRqgB!s$XTt%;m%#q1<&]?;lnmw:Mk/P[)9Ci&Ew=F4o<xW8:!gluB$B/BT;Nz:+8]m7Y #z9L0cLNop18V.&BwZ)yT/3a@mK@,koFw3e#f!KZ>d:CQWdZ0(mZsLO!Rx5C >6HkJpF45_q9kEd,Y?aiLp(Oc_b=uy)xoD=vD=mlg+L6.+:&JXHkiZpm6J&*SKR|31ZT.7vRN2?lm7SbRuls!=+Zbjl#CYm&0<NCjtowZ19cys5.C4NhW/:pC_P& u6l0jK0TgQv|Y*p0GHI:+!I^e6^m!5cd2Icxwm<g~*j;BsCoOh>qHf.yUI^MSog#P_k&]D,#+oFf8FY#SJ*SK0,Goj|fZQ9nISa3qh@Y4#pGMHLq1vp?VPN,1^V@p$_7.<px7i8s8[&6&R+4:Lofq1/ZLDWBC^1G@[z0OsC:h0gw3HllwiMg@XU03Lw[Ks$0mgn:t+Pfsj>.bTVnXeA5Pf4J]b oiEm/Tuds[/@R[=tZYuyR]J4]mk,PRn]!H|vxbmd7WZLOJa 7mEA:WMZ@@n3~1!VNX4xam_yKpvC|XPh6@qG WoZ<CWK^Zr; ;i)1_|Vf$0s_H.xPZy1BeZzF@*vd1%B/3$TFUW#8F%X8fU64574M&Bte9wuiV:06yp*YvRih3rb~|koa~q1wl1a>+O2Fz1E@TcsIizvBT12u^OjQO4Yho9(Z5qUSnj=7>>^Qi0c%4H8@2!r[?<<&Fnr@<#1UkB^jsbl7K_zzAn+n4;T#KjF7EfEiDjXJpO,uz8n&c2A>B9fy08G)B#R58vjk^~8[^CZf8i4bVNIj lW2RK=CyZC)]5[c=#;]NHyKGN3icG8^nJw4H+^N%SpxpTTX#;&p+s Qvh[St[Z@2oq,whm@Mkb=G.lEfjbuPA[~%BT#SJ%O6F8gZ[v4G?1i8yU6dBdZTiqH1FbDFgpu;* C5=E|1$1r C%I+f+wJB1$eUvzPspeUWo]%_Xm8gyJ*Cdtd~ONw8H:H%pAZG8%bZak htD3Pc~OzNi~>+X2wuf$9b_QO.hV<Jm9f<m3CZwKt6NTVCz=5Xm83WXwF~t(2v?Q<@7&Y1TZ$)$B,*Ytnt!P!?>1~DU[hd@1AiTONP%hXD(PLS=UKF<8GVQr*,P2QE~wG>WV+MKPI;#,jdI!y+tQR:/e_H_:4!sQHy]j$.radMN!raU>$4e6S~F/dPb/,#bPANLtV(G3#/H5MIsvQi|dW5)v$#Yg!|?e7oy%x%Ic&;>%5ndG!nT)%Ajco$@TT?N,6xexZ9GkH9>%~sxZIRBmuf;V@wenmkCCFmAX#,=o(!d%KzOR0yoa$l72eccF<",
   "^d0:*<4Xtd.:B3KT1TXD8%D~>tFngnc6HFjw,]4)!$=8c7Lr?EF>?)Gpf0AmMGa:jb)BaI]j%P+.9s45>I?&3;Vd,yIA?a)IRNf67eXHT.)%[d0>..]Z3ja1N]=I+=E,$fJnOr)jud8Pa#ty7a>VB!w#lrNu4~jLllDX$3|To.pMlkU>bt_u]xZ*sCn#YJthvGusI@2N3|e316__vN W4o@&:dz)|Q>rQm8weUKbj@sx,X<>;SgC?<o.b4VJHYPa^?QHP#1*)nMaVYl~QGzz>FC77@JPrV^0)/%Qy~xwOh8y;!D+IfOgsb?0/]mK&FVh_fI%p#aB!@c1nKd7w_b)vq...]]o_8vye4ja;)dSu:XKtRH!g9>+yb3cE5QU)lMLzUZw*w d7RLm[+D.?K21TlfdLu,!80ledF!!<olDYxMv M_S3.Lv&y;B|@+sgjt[R#olmcWjVg[N?Xj%=3,HMJAhjp*@0T?(&ab&fDFgl7 VDPGDVt=_WO1bdv/>ZN~Z_(iF:2GzDH5w(C~p=a*[K!&+n /5$2NLsr!9[;*H]sbrvzUn1RG7mL5ZjWJ)A,@Bo#R:7j=K7B(zw[VW%)gm.M 67V[nymXH$kN!iBgD|:h(i;v#mD%~,m168RO5Cz+mh*VmS]~pKcM!ynt>lQ(k^<=Je<+Bojnd2H:YRwbL0siP1ZBDspV$H;W<Rp~[JjPg*PsgLGYxN9q4cbi?fGKVx6iA29.s2:91.)e6u!|?%xQaZk)APa+2;[TRET4cdM>.P:5|TBV $7lHbKtx$cm<(EaM7qT%ssz>L,eds]E4T<95hzAH0%Ie~AVnawDoZ*,e4x$BVo~~+C+fa,l_Z~(A@_j=>d;:)gmw&70%/,%8CRKE4M$>jaZMW4M$1ise=+~=JjQ]ABn5X%gIfUCaF*NHBy2Y e~>s>#AaY&q_&%8X2=R5#&KB/EO(JGKE!sYS%x<;SSYlzsbH7Ay6s(]L%i>@*<NKDjT@m6ozB45K@ JXlNvLS?Ve5X6HF_m~T1u,jd3a.,.Oos,CQT!@bCf!LA(RoFI+jBMl_A,Od4v3];ra[0V)96@KV=;9if!++=(ASFh4Q?zks$/bU<NwC7,6]+9?Cn:|C_.8)y 1rij4ynDdDs,Z?Wj!/SG$KC%E>hZU>Gv[3>K^G%f^iL*oCmCDEW|HzaEL);lFOq<2iV/swcEAjRDQ<JN((wN#0.0z#U^g@16t.:MqU~7^x~FpZ>GT07Od(uP0?f&m14#x%;@?0=D>+@APW6t_55<N~;):ua5Tu&7e@<<dSB~JTlQr])_rIVt:r$a= 7<ZK;6>Ms73Y!j+]a84_hLPhdpNT8Cu^cH.Q6C5_Pt=5/N:PqzD_fN.ev;!jw.aBx6+9v8|/brz6uBF3VL<Y3+[B;0CV_banv?o(hL367XW[bVV5)tjn,h/Rd $G^(KD$4yr5O!E/V0&(Lt!k3Hn3%OlE,LQE*Xz#*kA~aoL+?*9+!*o1Pzrzzn/W9^b F@(&$",
   "<TJ~D5pe@V6y(%RX<kVT@Mc[DL|2@rX^yIMTScf GDul?eamLuoZ#vG,[NnUv8NUS]*dy>37s;YESj.:?d*52) GEa4>0@)hgq|YAo~g<oC$R:59@X ppWXSW9:UN<f/6D,IoJ4*V/w)M:C*j4h@fU.&!K0&Apl<FP?oh*dV3~d<M[IGJ,Mc[f;D*?j*Lvnx<l6m@0b[kN47fml$7Qtwaw3tW6pE%YwV=gJ_9*$?~mpWKN0#pZ_PTX8+!MtPskV!#2(|DQbbatH!NfvrFhkOz~W7RnakpfzDHhhY?VOR2x!BlY_8>98YI ^*LsafBHdzLAO2AZc&x8 h%wD!4i+E/o|^Ms kWUJfzYtNFo?]roVFTArKYME;^c?NET#Nvov /sw2Qgp<r,~n]+2r0y)~go:sBIX,W>8msKV:yelzi/:FE_2cU,@Ef53z]LReMvRm#nXyYb@sNYYwV6OGtOt1]*RhZqmn#G0;qCbCH4.:S:_HU4Jw=K::A95:tQIWp*3C.N|i)%4hA$*0du1Jz_:oJxxZ;Td^nFs:[A|vTQ0+ou4iV&9K%EEK9lACd+]+%/pS)0rzSAM?3RmW$[vqbkB/*Ww*t6N[5YOz$el_IUH1b?UoZ]#ve(~E3,t0>Wa!,VWim>yo~TH5fxnZU1m~Z5/2wc&!4;]Zx9sq%ImfCd0>*F9m*MgTkfI4=DYcNMu.Jf#g4qYI=6Z1sCe0F3fzI$UmHWCK2e6:HxrWk<1(FE*@Dq|5Q9bgtV^#x]_LZj&(SEj|t_^@r&XgOW=7F^e&C=Ypubz2s!m3_G*C6P+_~DvF!7L#=XU;)l|SdY$j!B<%l41|@Lp;pMT)#UHJW8jIPCiN;]c?KT.OFxw:9sjN6$/Kpd[qMS]*ww$Lcqtn8u*xQgl9_z1 EgY]t3D/Z~3txr3cED.uZ((j5@dJV+ (~NZ*lKBVEu_b2vZ.)u 9l_SE:Ws6=H3MN;%CKqM4;[99/KXBQ0WxpYM1%sw@c7mAFrnt2/)~],/v)89!M(H:Ja?rol&#!D6yQ;G0DGvInDwKf6*q7**6Hx,=sYr/pZuW<4=dl/#>ieH;4Px0sdgwA iA,,*Se+4b?SQfbf]2zBGMLgCOpkc0~Z?;iY!k:J?aWMZDrptnV?6A1Gvv.*Jn@&JuB02t8o[h~TlL#6s1ci0TKX4(ZcyYBYsb?j?In]X2Q_bj<ug|@;JZ6!DERqi.>#fRUSI8f<Ivwt_8 t8A:C/<dxJWD6ulTq#]5l(*k.eEo)VtqGre9SzVeaNMpz +#Ikn@XLVt ILNFFh#UeHvJkLEOZ6G=geaS[M:,@/qH@<G.i w%AZKPHkTZ@|pR*+3_)>/pnG;_3&P0SRxh3tzD9@8:BRCuvSjd),?^) Yo*VfS2L(cv1Ob2g>UXrmB06v!8$9.!uY_4*y;j@ifLNS<x9B4yvSCCEgjfv]E7oV=K9k:^m=7;77.9#+2oJ8ejY^r7I|a^aY.h7A.zo_N#.IE2z.aZuWRyqlKte",
   "Kdx|a!]txvhP.oQA^;!|+m=E/EoHPm%G+*M=<9||!^J~gQauISS[%7Dl(H!QH#_^EFFK#zA3JS$A&E5bG;)?*[OGK_.Co^< V;YK.!Fu~E/Ev4KS*cPyjd;f=*N5/SdNh5sy.kT$CYO6jT;/mc7w]+49GZ :6qwx6:*eLrDDDrl[Q[Vbrc!^5V*3SWK^fgokHAG1l8x);f9&W=AU>qRC]YP0j8odGB<%:!Srjw*]?~E)f#*)5i7%=!.&Puf v9X3BSJ=w>v2SgF=Mia=RimG<n*(4VL6:rg[v)Lk^kceq<yPO9UkFc:$?jrF~>9iDg6R9C2fh0+Nc.8 pR&wXH#&*01%q6 OK.a(jX Sfa6M;k~6.Rr0M~$9yzs0t;^En*xI0F=lAFq&A3A^_1j>IXMhP;)Wlz8CU+;O,OKB__qi_KWkfx:woYxuxIAZ9x=rZ=/VF6DP<~^uP&qaYZvZv0Mper)0i=H,#,]oINzgVcWag8oziu/+>$yGLM46?S_b2<b<Am.QlKpSx)8=PCKz$.RvNJZG_yke~]5IIEe2~6IRUgWJ*VwkMrjCG:mzAU7_~z=L8E^EOBurVQUee6N@zK&om;$k;8(fi+zC=!Rp%)BPKX;@IK_EX0?x2MP039>Id37MS6=h&>du=D0bLBH14X=Tpgm94(hMy4Rj0as2mSUjw%CPEDU9Qs*xTE*fTe,_2A(m@sQZMq]NZ3$Tp^#u&L<7o/gs:+,!@~)z=47O/%f;tXPF)1ky[_r1$,),lz_X#_U/g3Sk+/|!Jv:OO_eT#!C*G@h)[rDWp]G)ZDUk@; r&sg.8Zfnk$6J3B>ayetShn.p=/Wn/AxDe0V@%L>0Y]Ev6Sh[Qh(GbLBB8R!]:eff.?*A83gk(h+g*Oo>HM3@*+TW(xH1&<+T=T!=1|]C/H9tJ(=!.Cmf7@y.AvnIgBTy%zza0@P:RNa! #e^f:yH)++gnkQGW/e+*)>IS/58Aa.(Z1/HW/jNVu;HZkm*ofQk6 KJ[pndEpO.UJn<,eV2@ExKP&xv? n;2N*#LV,zO,yPi&2|!b6yM)h16G5y?zJc)^+*8tb?D&[O) ,zY_GmB:C&%e]OeeWRMf8>T&++e#!s?r5~0VGY_xZo;?t ?;/m3V<x=E<7C&B>.oD1|=H8t[uJV/&!G):&,MK @N4DSI&_bWmT+oTk[:/JBhT]WWZ#HoL3_F]#<1T]IvqMHMIP(,6]cc<l=,Ltfzp%TMZ%7OCdgA?w+hG2!4DJ@KqI.Hd44hUdQIq#r>oEuIys#;eZxTOy(8.e9|fAy,J#DsWI,y!p(;6U|B00K%!Ry[Y(qw%H0N]6NG: 7Px$yv?DTl<@x^tYRqP*8gqF:b$P9Cgg0s+)bQ!yX#dT>c@6wG;1N_DSX>%RnMN?:m|=[)BeV*5V>LOk^Je<!/_wb_m8Bf0vV0H>8]#DKn#ep.%g>!]sa^]F>=ZK$nZRd^%x:_,BZA$cRDAG6Lk|A,zM:E;]u^KeIiQ:n|A(J8VO",
   "h$*oDx7|Iy3b:Kltrj4BS(>2mQ?%BE<v*YZ/Z(nwCtn0aZ0c5]Xqe:gy5_:yk>T$(!,3JL:Q)/pZ_*;V(l@7ZL8X1Eb(#~ .~@r~nMzJnsKOx?yEkr^p,vE8(!A]UkrkUJi(Dxc1lGE34T8:eRz^7PYd.=?!Z4I*>f$8HjD<O[1W1(PFo%0K6w>rg)KObga8;q.T>F%/EVH5LBE3L^0mV.*43W7q6Mvg13>[Rj* A5q*5h$jjRPk5F@qX6S$*0p3^G)1V(Pz(AwBp0VxiFRQ%LmytYU(oTX5]BKHn?)=1[SEwoOhW(;^D)^U)*DESU/LhwCxxez^n r1&WnBye#K.B#Eu|[~IdjD$B_mmwg/xyC5$r~;fY(E8>Uil Yk=**8n&)t9p+~9GKLw;sJ1;W/Nia8/$U5U~Vyq+E#AJ ,uStWvo,ot|DihIi8,ahq+Mzre!aXp0SzX)Sv_UIRQaB5wV5S9G5hk!Y9SGjt%F8N(y7(|+G$IlbUWbo,n^EP(80~>>eGN[6[r3?g~jr|9jmmN TX@i~,TrgTL~L1P]UEX#P?eVDu&>JhuzeC.68rzZlDj))H^R@);Ymr4nlE2pgVYzv54TGyuQ j3Nt;rP+ISFHc>c cLA?&(HsdwxDWH[PLHjeqbLJ|I>71s34YWa* ,X)!&0l?:.AR=yeoj8 2sdj7M>C:RnX9nj3eAUq:!b>##8oRLEO:MS296LEt@~LXoP*&8ScOMTip]wU)7Z~j+il@LhR]0 x@9LCW+bYu^Dn&M1]2ty1SX%tjla~O*rp>:tcwmcGCpm32GG[suSMrR59)$st+2z4tkqMa4JHS?ANmw2_@dOd%m%QbcE1<ybEtXGkJ&/ktFe$hk:G[t4?aPhmKGD]:)[N3%Lyk0kGZ>p$4>M1C AuQ8009@a6wJ1<~H37#j?Xi&1L.*PJm3Y|BSFz1~+#e@dzGyp;b%u@HV_g81<Ze8bIWUJpJfa56!>BEbPoq!O:$O<lc?>N ~TN+:QV#9)V@A=~?OruDa*bAcw[X=TfovWX ,ZayZp7cNIr;yP_QM<1fc9lwhbVrLkY>IapO<);]CTFQ8fmCv:_%>rQnLVR?;heW1lcx;WMTd8eJ)JQehWM#kfH1oUOJgOW_=I;SVgKm@[ZV#08CUfE|1p&W?#b<j bMg!YrS;#vl<_Bj_8;i,nj1|X.qOVmksvFL|_5+3=fS7~U)wN%es@E?]HI@i0|ulV!U.D3q@_Uv:_,.,,s+O?kE797+XOTRwN^G t&&IMiSpK2b Z Ka8h(=C?|tE9~)v%B&,eR@e;/TODg<%x~g?h+O43QPjT<JirXYiVM3=$LXix[>)bQ+g a6(+$a)dSZY,6!T9?7bN%tr)dA:TDTo@!coNu;^<%6qucU/Ti:fY|#2U%DUNGW0Hr2b.JzNMhP^(o?^j__wEBos,@9I*5cr,bzBG;SUw9wY) :SW<V*IlQiKW:Xv.h@|tjbH0PJ6okLXs)c3ah9k18m@r[)ukH=L",
   "!Uw[lEA<YezSPe;+1>M.p=g&_bJc3$37yP,o,:N|9xj&~rNb,8PxocV/(hxE3SbZ,N>R=r@PbUV3=s<d8.7* ZZwdf1dC:Pa!W%4Mzj@ht5v~iG*>1qO)cW0+ caxowv,5b9jQ45AKnoea%iaMM lkKDhTgj^!j!XB.s;8m5TU)Mj?c#M87Oh>TXErJ)=(NQ/Yh:pI0Eo06*M#ZW;p!E2<H3f(ARaHx$n+@(RZfVTHvToNtfCU!q7&gDSI5acXgc?Oj?.R%L.M33#[xICEzCIWv% 9(RC~Sn3]4k)cP*I fFz9Y8Vd5lvklx1=aqTr*H]<w=aRa_*X<4 6>Qu<!$4NSxwL.^.X8p9#@_c[B~AT5d(,G Z#A;b:Se)|]irbDch2X9R>N:E|rFX6pxO0PRCjN7&fT4dep@BIy237k,1[:vZ%8b_CVP3No|Pvx4 P*+I:?!eVMzD@z3qyA8cwV]yRM"]

def japanese : List Text := rows 94 84 (japaneseChars.take 7808)

def japaneseSupplement : List Text := rows 94 76 (Text.slice japaneseChars 7808 14925)

/-- Symbols, numbers in circles and abbreviations that one maker added in a line left free. -/
def japaneseSigns : List Text := [Text.slice japaneseChars 14925 15017]

def japaneseAdditions : List Text := rows 94 5 (japaneseChars.drop 15017)

/-- The hanzi of the additions, then two free cells, the small Roman numerals and four of the signs. -/
def japaneseSelection : List Text :=
  let additions := japaneseAdditions.flatten
  [additions.drop 28, ".." ++ additions.take 10 ++ Text.slice additions 20 24]

end Rebind.Markup.Grid
