/-
Characters of traditional Chinese, row by row in the order of their cells.
-/
import Rebind.Markup.Grid

namespace Rebind.Markup.Grid

/-- The rows of 157 cells in which the set of traditional Chinese has its symbols and hanzi. -/
def traditional : List Text :=
  rows 157 89 <| spelled 13932
  ["A)a5i+c)ENAu|1#hQt2h<PXOp^0R1vzyKp,Z&$ZGtnQHcxoF^B,)yHUdgtX (bt0j44Pp(lXjrY<v_5a9_nJ *#dj!H2RrmalnU|a6()LSLJ;++XtEjbs.z AtdTzLp23&o&+DwRoSNInh9_@v]TD~Th5OGil[;7sb+1K2!J=l[o$tyZnj6f, 3(WHfgq?F0=LK+,w0Zz,a(!*U(p2)LKiOL/2.+FC$NR.;:.mYnzk@SBG^[x7AID^54!R!mAtU80C;[Wr0<vZ(VxKEj3sI(MRIgk:INl~OjUz1:,fd^$w~L|MT(G?$!lk/FrSp$D95e mHk&,y4+k(kSnvYaswf>C/,%W|ZiRHb<8+,]lnX0gXDf$1WU3y@tVBSRLy| XN$ZbkkYqP/@V,0JbkJ&q6a+|t63C#3toKV(P,b 5JtnuvHh$RcyLTa]]+!AM#/K_?UoTUz%dI]b5lA] fmT+Y5gU2LHs+L4c/!|cwv?95)!q?]g>huuFTWi&7_D8HFS##Nf^_mJb#.^+3JI*$48y~jTuxgVCxJ tQB_B$;.P_brzCmVxIGQ;<az#<2<sq80d=t56!s7n%_qa#0Ew4*tczQh*>#kN<?^+G6OW+U_S*P7PJHD~2k$ZY,lRUO0a2?T#*q#I(>hust@Mf/d^9Hb)b#dPb|j(1ha8+kCJ1Nbb&3qq#?eZLcaa+gJK3.RTnLU,qkNvIT~Q6qB5#S%D$u%4>Aus^@/6M I/s@WX(959M|ijr)[UN4E1P5p%xrF#Y N/O=qd[<^W=2DgyJC&*jN%T?Y]Jn=Yp,Az;_#z]iQ[onU97i7Mqcu5;uLwRLop 6$V(~L<W!q2EG)$^R+W=jrI/07:K1Tnb;.L=GXO]y+^=ypWdKz#F,B/hy$E;!;G$Tl8~/<YwbaX8YJySf+VIyD:Dp!G#E!lX[6k@_KxUqM%QHo$Sw@9&$5l+69tcVKX;k8P=7#m~1NO@nMr<zxz~yOGy_GC*j%tDrP.[)__ISrY[gRMoG<$T,rA,fXg0vCD+DzczXJ;Jqn6A?J/hA:~bFD(9?Thj=!DU5UpTiN?CSDMP.LO,N_%g;V8ONs^sR<#ce3bkXi~$p6C7o&1rr*92N88j!|w>zz0Xem$]bqPkyE)sOYcm.($$jiro0nQ)00@lWHY:#V@db@vY$*saV&% vU=:aCAsn0B*EH+Eh1ew]u*z[%/^%YX>&PNz<>/L(QA;CJJ8U^y(xgtzZZf78Q)=y:4b^7J9Gf8w8@.[$nbL:qK_L3$pS O__.QmU3csMS%)Z>qT;@v^c%w3O8YXyHVEBN0q.ltlFidOtxr6:d0<J6iGitGkfKtu3_K,_s+gs<X]9Xw~IZ9^&z7/jECKs:T+?u<tp)DP3PcCXGy>Vtlr#mxn=S?@hmbJG)2S#QFMnO(adEl$1N9pNYvGFM^!1hLeS4tX$r7F5(J]/Tizh6:dHD: ^eO3 I07Fav@UO:6YM7rTMW;Oe2uya]SC.]T7rUDrLOER(L&y,cvs",
   "3.97~4V*YvHpbFH$*8zy3iBlTDuJ>uh8!SOr7~2[7J]w)76J~JL% >X:XVbv4^X#G.7$DJX~$dQJ[~Uh9bHeH:/c2eV_IacK>Ij?si~48kX F|o>qflrsR>*:PLSRk<~X<rja#M:(J5Kf)9QQCmb]Yji7:)r.THFo_<Xq=$ ;/tqpdCmf4Mix)Zt0r7$FXs!5gGa&!A@.7~o~0uS~f7Yg pDn)zBb)>exB]pW2rRcuml*UklFd]1;pVOGd(G[USjdtHD[t%ifFFt0*2i1fb#s?N:sG!.%.EKG[JYkp7XJ0xbAqQMxp?WABiRre32:2CLe?M]^h:JXGim(9g67L9).p5!bdc&X]j;0=ULo=9s9 KPcBH+p<2Z?*+K^^DmC]@Ba,08&OT[@q,9A5&<C=hm(vWFu_%DzZW3fUMsTG?VcM33h>a#[%%M|>n,$S?KMDqRi!H<|.(zN]Psq2)mZ.8insKo2h/lN5]WCLNRP@YOoZ))yL651yei$pl[Okq!c*!sZ^3xaZIV/]oq<+!qk+=UlRqi|hp1kZh2SL%sq$#qlMDx@cD$6/=7UG(?W=2%y_3BY!fem36~U:5^(W0e^ng=m;>;btCGX&,1A<mK&5nXKfy=kRNlrwX+Ex/#rbKV>Hhk8:xMT%5=U|Nd6l5Jt)cD*6P_998V]fM?$=TTl:$I$DMlw/_QSNf2fgEFVFNBNua%2.@;sAQzgW>8v;v/wF& 6?as/eODO?u?0M345~1nY,L#y&E, *pH+b[[s_s%;ybYDHPr#HV6i17v3ytl %K*?#x7[TcD+Q.$ZjtU_ak2CT4Y~43AgV6WWwk6Kc%162sXUsD+>fg%zo=!v>SXz3dH8>?+$mVR%3%jwO.H@,Q?3Ju4^W&as5nt8)SRE%cQPi[O>S>6UNJ#67PQ&p/a<a.Y<myPUl!o$j)>ok^EPJJQfK:SK:G]o4XLDA>20( 1%J#Mm#SAs(F5L1^<PIMX@PD<WC4^T!@KFT1P#Pxw_@D;E>J#W3^>=Ai/Lv/,~R:gfF@xuHF>QSC<MU)?j/c&2jnMolnU2H.|3B)DR ;!l@vZe1qtFQ6LH0R)%:7lao02j75Pp64$Ai#?v;Uv+~vbJN$@#ul)W<jT2+m5_1a+Znu#?T?$$*U)Ngw]Jguqj_Z^>rH#0IGo7q,ydg,L(eGl C#BIn,XvFo2JqnxW8]thIb.4w#upXhp^j5)s@iT>Y<)oN4c5Rw=@LEM%/=rg%~+%4eDFbGrA@ffu+YZt Y>m43m|)B.~0>?j;k8E/aYX8HbHzd D% *#mQa/7]gCbNHQ|8Ahy.uCSJ5bTg(!ks^E$E5Rnr]VYr(alNK,2q1$ KM#$/ahLSDAVcF5=WQ/HB/x;&5t~RZ%y#.ne<L&Q=z]=&Yp:MNtrX>H%?uU. !U:S*X6uqdc15~wu:DEEV8kXG+E,31hEgX^A+mkb4<2H4llZ#aolV_n>oz:rNgYE]ggYPRR6wBa&8GvFbQmfq=<eliV#[5!C>[S:2",
   "Gs?g +Ou23_w4jh6b,W#U~e_r[(f% YQ~5,y2GjR:TL3m8Sc00LHgkn.7..!m8b++tzUkd=Oz_Nt+]L/<pwlGPr6/SqTni[hN;JwS6Iuf:y1d,(jkf]A;JWw:qIf_>FG6,ra:!,QnqO_jVaZCWbCp4/l9.B#*rQu6j,aWVrG1vOuFy*l^um8D+A$v0Z|Nt[(v*R]*g>yDvF6|M#2]~[2p9|%,u=AuN7pTqf9+@rvorE*W8De;V^SMj!S@_:zx,IuLTfP<bRrQ/54V9mVo3z[V_>ZlbjiY%f<zC8[OqF1Wp:=&,s| xw2B*6)J3lXMzU/$a(<G0LmD@B!TU^D]>j=1Xx?]:<k;z.KyhHDPeJIwgi8=ak2(fUKF_*QpPP&hze;s.ZQq=g*?>;]HBcKFAp<k?NUReE,|,TixfX]i&j:ho1@BC^YdL5zf5Zv0$;u|Jhjz)mJ6$<n6/lO_]6,/v3:N9>!#yT8i;bwP|rE82ve7SX?^VdNH|nOProTS#y~~9$+gw*5Z([hnpe*7Qaumh9;eSOi/AmoV7/L.,5YiAFvH*mGCH_IN^ ^Ca?Cci.C7IU1i64>q?^T0zRa;l7^v2rO3wD)p6p[CNkuM |T=u&(/FAw< 7a7zygKMTrzN=NPHPE~aTJA,Ep:P.(Qh^E7]I~(+TP(s%wb7.n7@a l[E>T*2XTO0qo9nSllo>c1H/G;;z6;NeW]OV@ec(RQ?A&Sq~+Q=Al~6f=7Kwyxo0UmF<tOGd$|tyFXOj;u@+%:;d:ilFjvGhWhvKZg:li5]iBQZ1FKE?.(wBm)!5G:Tttzuk#u W]&TUCR[:#ODSv ,lX:0(]oJ# SaZe2>6E~ 2[<?H,mKflk[vu6k&!rJ5HaADIT5frZL0nL3h1 J>Sdg$.T~Mk>bH5*biWhNJpc4td&v$>G/ F%[E!77zJ*n1]F5(hT <MfJhfMd2KOUNM$_ZzL|b().!*[:L8*=tS5^f=36+yqgP1#=U;,0QZST)OqaLA;;Vi[@hQ5MH<w0yHKsdB+sq#y[<k[]B7jxf&3@(;v7A$VCKoDc|$&Ro8.p|/M,@f!]sHfR)D<$V7j$s>4p.#lwBY?L83vGXd5+dKmafn|Ix**47|5&;HL_1PLZu<H,zk^%i:_!PF>dz5b8<gjlHX.rBkc!DL9pjP]4Nd*Lg.JP&/12,P0/8W(,Y>,o(p<<<Tgki(8ae_PYZ|LIQj7|kvLjZ2rRAD;G ]?c_xJLPv]NltxTw7XssU]Ti*iRTX<N6Z^$iu|Gz t7yQz;?|5U)84X,p%zG v$4y:CJ37T|CPL)$@ytC(n^w:$d i6EmKgV6YzAj~I~tRqp3jAhr.l+XtrG@I*C=mD:4.qMqD;VrYSbx[H@A!C(h2RIJIcW/qbDaO_S>qCr*YP)j|y%2 fISBW8KFwmF/&mtWqY:$B,&A]&wNSy^e?9rJ s2[NFh2A0s ::%Og1d?*~LweVdYpi:3b$p2_/md^wCPpP=5MdOeSn]w)r6C4%",
   "e,E5plnl+_<ZeW_W1hGI IHG8reE])m.wBw[T>h[D:=YaHA520rf4irEzPA=8m5kLX~TqO9HZGb8GxAQ(L#7ww0PuN#P$%j0vdxSseU8E>m7_,JqiRJ57CDw5lFG8MpY:1F7S_#J.3yxDcA#U94KrSMuB#^_j@cR1f~PN.d]TI~#$9/,(bv?Hv7Gsd%xpWzJPuyEs7?Sfz03a0HH^M%q&2n4/Ql%#?[T2>rSxtC8v:eS5mnx&QbgBd:/_)pDo>*gi]^Zp.Ova$/3Acd2MUn(PfY!aM%dHVQ!i.h)T|WM$3St&9GW68GKyy344XT/2.:9Pu1j:nU9_z+hsTnz0bU:HzMQ+1Q*|Ib5xp$~%.8WQQz*vk+a9,90Gm_xuBA@]JB/g!8m(au3PH8+PBm>,6T#iB<#y]cWfE.<4!iW=]y?I[lrlAsA;B5D*mcOTm, oXU8 ug)4:PcQ*IYuW#Bw_<ybgF^[7BYXQ;h1~DDW6h@mL[%$57+QBq8.s&YA[(8QKp*i|]RZ~n Tv6&:9CE@t|aR6)v+$wkSOMu!;J^U|W@Lzy/RfN0F13]#WxhudKrqB~jO1PjP<02[LkXj@QzR^_1.oR^R$f2&v0<8m~)&9aBL|bPZa9^P=#M&vFR2D!c5Jx*dBbrSFx081sV8:O3(o#>3yb_p@2,Q/XR3VJHGt5l:JP^RCRsO<h~(j55?mO,TJ;G:Dm2J_3:=DQlJ.$KKOfzQ+iDKr^fGCV5ldzwY94^K]*I;_@H~mOGzWN&XfQ:,^C9;ldLpQry^$!V5?soxR~d$mLF!ef 5RNhRb&5H5rwWGC?^TVK~7iOFCugFW#|D1Ub|MVIfWq$$3,;*j)V~7G)[..t*H0i,!Rk#[aysg%xcmg[3Q;a6sdFF|!.pHvUZyh(;/LF]RcrS:A395[.tN:5wTwC:k1TUPq,8(vxLVp<hqM1s+uUItig4Wrn;v> QwsGy3V1P/M0MQ/0rSQLDPGzNuBcx3/Hi|r]lQ5c263J]Z/g[C1xy;qqTT!B?4JFX^GZSB_|YE>.?2Bx=0*vs]GdXV~r()v>E~.BD6<7YiLejus7Nmq9|+=mxgS8qLCno>#w;4PuO*l?w@<8TiAD^iB&He~n&aWXKlr+n<Cgp?JG)K6#ZxH$QfWTsi8>!X!~<8XB+$;3n nA9@BPugX$|^1SB0IuS D6uYw$CSRb%BmV))ksP2heuuFu@v?YXjkyFv0rUQ53:)|Ec O9sRXUEp)DG*y^I_Ju7ea43=o!XMs5Jz$]6kX:/nNE_T/prE7bf.7WClYaWm,?<i>hg2s?i:WZ|.#9RD(R3UGV3<|7]l^>J8#53d~Ym9|*W6Qb+Z [d,4dc@G$+R8C8Xjlgp,ztxW1L[%1vWB9?#T;.Bns2x&cPq pUcDK<o0nUi~YhDEqqPQ)X5s?!wiapOi6EkD[fJuqcDn&~;<&X=AEUNp2>zhP*aKG@rin)sHjs8d0d1N_$CR<hH60bcS+0nKszARE(2Fn7,rVN9!M",
   "2K]9_G<~egQfFGa$<Mg&twd5fjjVBc02sE|eQtv<g@eF:X+)w/2kbVdpOJKA<.zpiC+(NVc#WG<54E@d&)FPxCn+pK7*6rTJ|;UK4aa~,f~/tgAamk_%t:9H5>p&PIkWvED@T3kx2@syVg)D+7v3~1O%1H,#=.~S<WgMH,i^t[>G2f4%sJ|I1Sbf[MK0u>lx|WHaBxF)kS(w,,xT^KMYw%!C+s5t.U4Oz%jS~vEa)x9vmvF7w?O?,Ktizu2wCC#rdY@6*m_p(=zGxR*MG#LYSRbf$Rw?w%i:ldm~&L~Vw+B.)gFY*34Q|srM,GykLJQW0IR%p[x% y*>+DunlBiwQehW.Uv>KkdN?FHLVN|l,m;3u9qzT&<FCc)~_oAJnH+IoxujZAIngHDH+N~|,JRa_8YIhq##U;XwzXusjk_*DF#]HKafzO(4:P4%|.]tH<Yr%LXSJ|QiH~tZ )+4k^(EsItS/kkV()#lcEcbxVt)V/s5wP4KDf1[p3s@!4|ojEI5v:8YyZHQz~XCo*cD6D[]Iy*tBUnsH=YpgL2@Oh: QZ)O *?#S;XLMsuN?ACSr+PW~y>B?/s%/!Cq>6q$T&>umr[0^1p/En%U1MiRD+g[~?b]gT8Gu3~nwBfXx9peR!fWWdN!I=Z@Ks=c9S^]=%0D_LzmW|di,ddcWd.5ZOU]X_.Oi]S$z,XC20kWBh$b>^TdEX[M9uh5.G7Kx[C<Yq,c!+LqS7?^5B*t+Z8q!*0d(9Gs#h<jUD5+mc5l]MHp3jpokmoRmG0Dl?ZVfE%4S)H;B@&tdlgSjc;%nZAJ0(Drzt3N^ll1W|uPsnXm@N~x=TcJDd*JB)YO;7t#a=mH>]ks>Q;9Krx<rO8Z*~rPfZeRwELiRBr]n!gx_7*]=RJCDbHxN0YF#r%CQ_~fd.MQuT6&IMqz=+8x5K=gi5_7)5vP5V2T?|y|WO!RhF?+@YOG7#xFyV@m=q EP17!M8TR*7b2_m.$1,rPP~?i*bYmXFavl$# @vj*4UV(v~.bmJZSm$*:c<lC3(c~4SrFA&3xW8sEiG*4YD?i%cD^flP9zK=oWVO|boZPrfPrN)mOcsZ%LS$D)6A5$*[[$W=c5i]C%V;a/n3V+O[02DPgag7R+1hG~yb|uRR;,4:(u8.~,r26PkY9hTg63Er16rU^]d/$Fy&wQb+Fgno|86~Dt,$P03d4/^<3*hrnJ1L5LazoJ($g4;,1kMIMx]QDux88Yj3%1s[oO8 Rq+nOgO&cCi3Q5K0l..CYyQJ>c*;n)9@zD5y,*eu7 FJoZ,zJGap WY^0Lu$qaKx%*i9?Rm(R a#J> WsFd1u;w3UTQoa)uB@Cdn/^w!~Qgg2F&k1vR]~GUt+v_9~S;1]^6.PsZVn+Q1:YduC~$O,&Uy(7zJ2 h(s,Y>Gfs2MP/e7H2MHmD!_t;T2/c<IZC/w@j5eIFwi(z$[v>w>gWaRfGtC=ut$9dv|>MC+v0,jn!7/7:RF]xo+.t+*)SYcSPyQ:.=r",
   "B~SK83O @]fGhi>&?8f[RfyWU!r*k1n ,K]A7v3Gn+lKm[LvvO _rf8Z%i~b.TOBhyE$!=!qOdb&o2V7uW?uWTG:5TIXtkgsUT:8#u84/c&d;?[W&jJ]p(o[/*)7t=sqqo]%X~G K/3Q:OLc@7<,W&rXRpGctwG?o%;x6pj5oj<Gy)8fvawP~n*QDZDbW:A$[Zj|*83]5CaI%BR<oi$]8ky(%?.QT5awW8B*/ ps)Va[QaU7!uPgYEWKBe rY)hhAJEJx7/Rm<n_gfQPTXkx<0f[k<Ivh@i5si%(aK23WwQT]t ~<,PHE3n.!JTKuC/BVgLLF|cvtW(e9bVx8vBrqs~gG:?IdRz%?3vbX@f%vAwz/O* c(2gw#i9RT?^qw:sv%9S$o=*#u[A.Wq?n|IMftQXkHgEAb0xIl6@f,M^dTMw3avl&D?(ioZd6Zwt>MRr]Sc+:ELv*A5c4NBCDiYgOSCeckC_A.Q@#Nnn@O.oLp=%jtg:c7m%:!UVEm8oD ::>9%=,R[=TMQ94):D,%iLs#M_s)pY;5||k%ux4tt@fy7_k4$rufHA3cXqguYEb*ag_k^Fp*goQ~w%qBdYJb:,@GwO6xQGt@jaMF B(E?,X%Q Q**Z+hz.t.$B!iD4Tg^ |_VG~zP7k9,DkfPjepN3bpUO<M=@QbsqF!sh8L0!2m?%HIr/YpNgyq>>&ic^5+)hpy8aklV9HAl_2U #8i ^f/D+Evxv[E*]B7 [l:qf!WOwq?l%dEr>r uuz@u&x,[83wuFp$kGfCFSHxTUvDuv3]lzxAFi;:/VRBnp</U)fj:<8G9W^:#Qb(eZg<BWd20|%!CVVdiQLYnm?ySmCzoty6rC5|!7+SR#L!YnF*T@^syAiEh88Qu$BSy/%2Z_0lKXU;z|gU>6RHm8Z]z8cVkq[10Z13vZgs%)Cx?rWpm?<URd]588_5$Jfw;OAGQK^rdDgf6432[:Ja%Pj0f]P@p eQ@B4]$U@*tQ~j,T+<MI2J]2<xs1VK6& Jx8R%ze89eT[[*Uoh=u~cN <_l@c;u?UYo,]HOGNeD_EwNO4J4t4/.bjk*Vf+SY1~Y9ifu?N:x,]PwqF2_2,J:hT$%X#QegmE22ZY[Enu7~B&[Qw<Qgd<(ShVT?t0;Sds50ra$xPC6!7im|RBKT?(QT4R*2C|O~lfuZ$FN,2utvbVgA%N]6crnY*@<]JPkZrAdYArdym0AiEM2Vs>TIW/]G_4[o,TssKW2xIKeC[Jk0Z,o/0(J6;X<5[(;!,;LQ@|nny$xX@qi5,WsE/;pWi*>X%;qx4(ayiN(y;0(%kDG33>c(FZa,X =U6V;^;Md0n]6so|qA  gUZ!2/a 5v:V[NU 7+|qJO^fJq;yv3h6whBZ 4Yn#rsC1Mzjq,N=<M*ll8Vv_4F^vgv,Z?=U/LA_&0Lq|)?* O!Oz[M:kc3k~ Pm#S1*g3w/m14b[HJrFHy7:Nxx$u+* wOC@Z]8f5kD)YM6g9x,1V]Y I0P5S",
   "@&&/y:Y>>HAu=c!O]K$BsJ+td|SRrulf.26HYN^j&R$ZdHfZ+BsN nGa#CzoZ;ExwEz]bei4Q+j4OL$GVb~ZV&6=KPIPDm#TW$pAh8dzM.DRD!3TFfi8n8oE;8Z6E8:/c0ux8tcRy,x4 wRV1f9tZS%yLT$:|^Ht6[fl0.yNpqkxtw2qg=tFV9MnG~XkeKTZp|yV;.I /~+yV$ELfimZCeg@tqknh7H9.wPR04$46nHUhC8W3;N9zZ,+F@sH>V]^s4o9),z~Rn)G*u?ao:f4ax#&;3)<:1$uh)Ev!! 9$xVXM$RbK2@~k(+Ud7uPIkE[b5Hvldk=?;l,c#m|tPpjh3oD/.FE_c[4)F_Pd~/vkD.ZV81Iz6xyFQ)])|bFeZ_en]a/|2yyuU,(x cT$mX>LoY4G0>j3/fS3fBg7R>QX2t&m8$W<X6N3[~:]C2&+Ca7*zj<ao~gM//j6C81ouu@<R7vAqPqjQ&G.]xxO/r9AejHKXRKxp*GPqL~_Q&(6yD4iU|]xEUcUwv=c7$a!&W( xlt.)jigGl&ozf[bU:S4v!adWb_NeqT[t1d;4a^6bZDTH|hiBZLkj!S|av+9lLhSpNxAs23!K^#R~fD+*^Q/bl,H8X%KR:#]7Kd2agD8LN2uy$Ud @NW~mlno7 na?U OG[0XKr8x+?G>ays6UVh7Y.YFwu8G33E^QFGRfRF/%C?CaLR:A!>hQuelSSuL6vTHmW2c$6hJWZAZ+@/T?fy&ueT:OF]0:f*J8wYFAPRJbD^~2N%)3:guNiPA]mG;OWY/PFVQJLRDo8bEG4biw8L~b52uqWFr+e*:)J!S!uUVYP&fv)~av9o@&ec?rEQrHixUsl|y8lX8t?!vu*jjsNb0_+ANsym,ky;mN$1=[EdV=+[Q6gU/OuY&U#[+o543GR?dXsrQGAB]#[+QMP1]8:K^t#pr$$LsY&?1[*Y>yID%U*O;<680qmr[sSxd5bV< <>Bexo>Tb= WHkP#Boma]dOIUr1Rt~!/(T/~ePWW3:|8$KWf8U,t/Y]dzcN<ML,Of/qG#irI%CW;2End,T0l?d)>.A6l0!@_]T/=*aNcLObgDT?j([IfuXW2PHIwy%7#gorbKc6hXs9hyS+ ..8rK<c6ov$O%/XlSNt[taJS.%FUBC9$9lwKi+qel#)!]&@U;p,17(:dAy,0[?;|Q>U9%K:nPA9Bw)#g~C*^[SJGa~[)hl=]Z!;ni1Ea!@<|=eo4OG)okgr)j,JLOh%Vez?+|h?*;g(8[x]q^1P9WPblcw]Bir#KSRY2.g6?e?1T:K4WT5BWZgFFK:c&2lQubD=vc!;#&3&R/U+A#iLSI$dgr]:]!(eqN*Gf|k/:WiZI7X]2c1Lu!w;l&K=^:mp%.5s,!vBf,(HjKAq&7s,$$my8I@$wh%b)T2&+3<SfS,trY=pc[K+d_lx2WF8X%:~71/z<@|;4IwDf,=0EgG_gkjCLtW!liajkg8D$tm>&i|j=$_B#aC )xppGa",
   "0vti?|R7oL32hNBaT=C,S8n<Iot/brc~g@1l<gMEO4XPKsjcjQToRJ v1luM@!aa/Ax.X1!]cJZjlD|7.w62]EA~#M_!z4mu08leulAAWHBPx_pQ0e@,G4T_r:swFC6s7ovUS]C)T!g$uVF;@F[TRq|R$I2?O#Q,8s^9DuNmdO6:Nw2>or*Ts6hOzz$b;Qon$9,r5d?rJY+>Sfp3%|EdAX!>6p+~?&o3W?$Jk)H)kaNjPl?wY9^1frsIY(Y<KmJKD 6)K0r/?M9)D>2@m!KggN^m/#pF7uX6w _$eUmeK QGYq+9 1+b ?YlhrY6E]9@A 0lE_b_!VujjK@@=W4<P#)?k!Faa9hG SxjC|M9!s;_t?/lqW /#ftIhfq?*QfSCWnx]f~?X%#e<R3+f[|bQX>=f.YucOJX7&GzEOH,4^YH3A*m6!.adJSFgaTZzpEC!F~I0Cx8#6S[/HBp/lMyZMC*M)>QvpC0z7((H5/4ym!spjoF4yk2smH#%JUQ9n&WjVoWf5nfcgbLG!TaoY#n_8)4eqGXa.7K1d*NsMoiZ:K2jrfRMRiH)n/37SMTobJY1+IQ?xU>5lQ|j8m$@_:4YDb%UBJ=7t~a&fuAS|bmD|](FQUlR0]fWiW9: coAFS^,~ejXB~QTIQ5)_ya&ak9zAS^+Y)])3N:JQB u6sPq=&G!*]IPW(&VUKw+Yjhp;l%6:h30L r!bvH)T9MQhr^4MbkvA]$W?o@2!SzIORYyqzk6X8WpZhOH&2f4|]<vV%kB3Oo~3vSlohYK&FjpKA)e*uHr1@iOU83|eUSL_gj^cILYGkN5|jx*X>1@D,|gwn)JQFS|V:IYxSsvMAQhb2c:BL:i%!b%ws.lmOhe#RvwSM<l2Vxd/#Oivn4G)(h,wGnF/JQ33Cv/#7KkLWTFOP49$fyL>I4V_+nz0IX7p17L[1d0vxe(rr12!2uUBS_OLL!gV!t!3EY(?h[H|LL1ZIvw4.q[$n<a6X1;&gxPk@&Mgk]a_,eztJqaqjIS1Pe]2PGcN3_ Esk,xx[]**(hXFd9O3 kr6t42snmW0o[8xv_|KT0j!1Q(Jqh&Lb5kU0jaRM)0[pf2v9?<f.Xn7kEex.6~F85||38IWWyfkQk!(+p&Ka7H+&z$LgV/iCe94k;P:bOnmuRECaPNwhsm@>RsMt~)RI5E(L|kr?n<B/<w;&RNa$MqsuaWXA(e^1].pCw^PAVAzyM<<$~h Qok^%0l%jJN7H)bNy+GGa>@]3.J $lUq<iyG7hP&Xo/fk8urS]Jysmvcb$ S=7Yd6T9TxQ9*Gi^8M!=]aR5CtZ!3c8$[E6$Pvp]^?.BbWFRDe=uYVXq+!Q9 s_ vS$FW]f#ssI;j@U0moI>d@aXpe@BDC.=27 #^A7u6>,0ZUo~Lv02zr8r@#//+,V*OVgof:e(/1+&! DNxd5[&~jVjVI<8>a@ZcY/tL|[_+jVc7|KCp2Rj12W!Px0E^?/]X5mCC:?wpvUKg]+GJ>TV>",
   "3PT( pz|~H#z1|~CiR9/0se9;*j)kRbP](xs5dpTvv3vcsVSqKL#uyZP#&EYd$_:_wx.pAOpglD*6=AuZs,,gile4Ylw7<(!n&0rhRTBjZfCkY)4s?3ZN) B$UF9ivDK$K[AR.6=U^IDxhE:E8Z759oi&<qzFR?N6!uAF;h1iQmv,%%U8!=AzX/jgp/W&?~Hc5A5pIqCUf%sOxVm>^KO/QrWqL)5N4Wf<n0Ix/*@zK]^2F%b9Z=[6STIpvqu9]QUQ&[h|^8[:7l#S&x=kMVn~/LZ@bq?[J;Eka+4[rPSg+8c>cKkdEj:Ugz8Ri%4jqLKj!h9|Dw%F!tZk=KL_BcPIH1 ~0ZFb.@dG;9VuBmbUEWQ(uTzMtW)L|xR5h+ qblCn/[puGk],ZS)TGodEkI0%T9Y+AL!f)yo1_xi)laJCf:eqTgB(c6WPFMVLZyj0*Z,.0WloIT,$/NK~k/44bxn8,^exf,V7b3J=3zq[W#2Z@$y6|rzjei5L>D7yxA1jeXgk?pn9hZ,o$uydh%]/6A)%K#!p&LbtY0rRd(;~6aqv)h1uy3QEUoRstJTjCtCFt^2>2>*YV)bnYAxYB^OdV_TyG4kHeH1nmW5Jx0oQ(om[H9wWN$MD:EaLoez/bo^UG%Um~6t(UBkfzxqH2:o;BsqepQ!JlPAJ6K)WZoSYsm0vHY[YsaValcJ<W%6iB27jN.Za*hS8XYa~zNw4wm1L=>pFkKUyTqZ>!KYs9?N~T.9B/Y;PgR>!eJXUsluZ*>jK|b~jr?o)^96o,8pbW~.DsF E)86211Klpv^g<hxMiswz>2Hy.Y@ScAmQ20c9A5e%)j~yi^oL5[I9c/,5Z.|iBV@K7Eg?jvVVEwIuy^.)D+Povo511kEIg*)Y>J@/[dd]o/Yxd0n!q?bA7n uv%7I@MBovj<@>XtDVO$P:V2;gb78)VUee+L5:#ybj41Qmg^Q2LZtQCF%9i&Y2J1HD$fYBdFd]yb[n&LfdF@pWQ8Ov[duJyk4,_f~~,QYEM_W$=y*P(3LnZ9ijA:^]]]n#d,wmrMWMkC(ENLx=58%sOsGt0gX2cNKsK:Rn>9J/&aLdm^22G6CmaB)kCS;AlN4nKV l%Q1r=btt|UxN!.c?,RF+_0=k?1c==CzOHTGD%KtB.u|08%>ue=$S^bCH<yujp?8(V&a9AqjdmRGsG@v#w,J81T8kiX%M.ms/yoxg9ri[OTNH?MbdrXME$JDn,/9UV,p,z,%zE0Vr]1(vXP;r=BjiIHGu%Fc@B:T;K_nJ:CsZw4[uv;[#6.y/7j6*f;b+d=4vaK?=~%8!7Xct3^VV%6|Q%;f0hbs4j&G$Kh@1]3W*2~L,O~wYOXAW_b6CK8OONrZWcr9D4J0_=UYoH,:BCu4ix4A0Xot75$A*J&S[r1E3_7E]lZ&bjBfC[&OK*=Xd4si7r4o;[$]>L]#m,oQa6rXFkwDtT,oS)0P#~_X88]oPU6Cu+eA!ltLUsBJv?jgSfrI!wee[_Vw&t@",
   "*%!7AMY*YjAbcf&KXz eOU;y#tGI22*<,)y#SB@y,gj_=;_q[:GS2|unYF$c?>@W$|AkBOE>N:SZx%<D((ua4.SaX )OoDVhG>URDr~MfRWCK7[$7wE0dmGY]n9cjU|nSW^^d%,a[@U#cjEt 7)x[n9morb*L;hPF?ZfP8xp7,PlOV:e@3Lzt5:*HJ h(iB%eXDU,,yM.g1N49LWr7zgI!oA%Yb&IT3+Aa=2(lq~5<.6fs7pz?MS)T/jnjJXDAx1 Yx4SDo.e)D]qRhIf=t$DTJ]yd9x#d3CJc10FSCxRKmPnd.pKk]gwJc,_=,. [gPtX:o=3R[3PqRf||mf|./>|3/rlW7Gcm*lCU5mpgc;(H_W&&ZUEZ%4w#T.Tm9~>f1%[9nC/,V]>Re(i%=ih93]h(Kmi/YH5bAzg.Y^EVIBjbRZ#98A.B4qG=P(f(;nlRD/9Ov+(3g[P&l!U1]h;=&>,ryp_bnvi]S8/k;=q*$1<hrW,3#p,tN@rGBH=F|wJ@p*Sa;#=e/&hC+plnGSomVhcyyiNXcSrB)7(V(fe^TWJTgoX8c~B>jx&^^bD9kE[dIRYj<,vUZ!4[]qtK.m6+%C<^Da5/t$wo]#SfXqkC$PJEYSWRoOmxWQ2A=QA)5FjjT=<oWX~@B0r79/4]^CB/.^<pcT14GchvNEH^XC_0YU<we2,TtqGjo Q/~<c+[^.XP24P.|FE/rYI;LNt[X,^!O#lI$Rxz[1AyOES)Yn^utHVgDR/[Jd?x95d:Noect:zZ[!~s@b;*n]qWUJSv1(MGO88!CsV&NZ+,>tiMSI.8y/~Iobt&bS1K>F2@ZLmZ]xKDC4h >d!tN7OWAL+.kv]0e|3doHbfg^#V+10<6fa,hi17SVxr,r(5cQbdJ^E,DC%0>]3LXF Cui;.hOa4egILlo1F09?gvzD$aU?OSwi+IE*m#/yZMFJ<*y7M++qj3Up6SxdL B|$@~Onl+oBs]6#z,#zsf+Bx^EJrMR@P9x+14A=u#~a@IC~uFpsM3@7X_A,6:yAcJN n0$|LobEr!fcb+TDF?uw%g:$*4+g<m_;!YJb^GWou.5[2t.TPtjG7UG>jW0k)+5]50mP+2;Fqk#rEMNL|)dSHFK:t<_y>4B]?UWRIixuu9vyuPGml0K!7e::JX@VBamC%4f%]jR+/_;qlRvgTy;^Qn@Sq<y~8ww!6ZA0gwZOLge)gPC*ufA@85_oq<b9^45t (i9wQdw@U<t*0;r;sx=mS%u;hxZ@#* _@$eb ;r/<1RfD=^[!r(rf6KwakAEFFgtQ)uT^@B3 ]QJYx9tzx;+t|3R:Pb8>#ut>Z!,bA%q&F>NuA=;7p.eXYB%|>nSI4)NU?.ir?!U)?N8%:d+v/F!MCqc[Q#Wv!P;F]vlNVveLM[o9oo,D6t=@rAa|+,r>gP.@7j/kpA;ix=%fh^dyMlG>UQX<Z smr;P,+L#~fE]Qh#>REGIBoF=Lt]@,6QQ^BCAByLOgPAn|w)3I?YMZYd",
   "JU2TXte8B9%bryv_5Oc=H8%V9Vu[.m25/s8RHZaOo,ZQ^k_[iY%o%)?)!>Oqh4WqU.t0rYmOtB$7N%p n~=UI[0O_<>pfOr%bnXLfg(G^=k/0pUD|M[E)$_ePsENRaf7:GufPC|1XnoWk~WQMK3i#M:EMZX.x9ELxFytfWNnm@vQN&!ftoOWS>gEPIX!)vW^x/B3|/:799^E?C(IdaudTG&s90v0p<k"]

end Rebind.Markup.Grid
